import HwoodiwissHelper.Library.ExpiringCache
import Mathlib.Order.Lattice

/-!
# Calls of a cache in the order of time

Where calls follow one another in time, the factory of a cache runs only when all entries that it
made under the key are dead.
-/

namespace ExpiringCache

variable {κ α β τ ρ φ : Type} [DecidableEq κ] [LinearOrder τ]

theorem Entry.live_mono {e : Entry α τ} {now later : τ} (hle : now ≤ later)
    (h : e.live now = false) : e.live later = false := by
  cases hexpiration : e.expiration with
  | none => simp [Entry.live, hexpiration] at h
  | some t =>
    simp only [Entry.live, hexpiration, Option.all_some, decide_eq_false_iff_not] at h ⊢
    exact fun hlive => h (lt_of_le_of_lt hle hlive)

variable (make : ρ → Except φ (Entry α τ)) (keyOf : ρ → κ)

/-- At a time, every entry that was made is in the cache or dead; and whenever the factory ran, the
entries that were made under the key before were dead. -/
structure Thrifty (time : τ) (h : History κ α β τ ρ φ) : Prop where
  held : ∀ v ∈ h.visits, ∀ e, v.Made make e →
    h.cache (keyOf v.outcome) = some e ∨ e.live time = false
  needed : ∀ w earlier, w :: earlier <:+ h.visits → w.ran = true →
    ∀ v ∈ earlier, keyOf v.outcome = keyOf w.outcome → ∀ e, v.Made make e →
      e.live w.now = false

omit [DecidableEq κ] in
theorem Thrifty.start (time : τ) :
    Thrifty make keyOf time (History.start : History κ α β τ ρ φ) where
  held := nofun
  needed w earlier h := by simp [History.start] at h

variable {make keyOf}

omit [DecidableEq κ] in
theorem Thrifty.push {time : τ} {h : History κ α β τ ρ φ} (hh : Thrifty make keyOf time h)
    {cache : Cache κ α τ} {w : Visit β τ ρ φ} (hle : time ≤ w.now)
    (hmade : ∀ e, w.Made make e → cache (keyOf w.outcome) = some e)
    (hheld : ∀ k e, h.cache k = some e → cache k = some e ∨ e.live w.now = false)
    (hran : w.ran = true → h.cache.liveEntry w.now (keyOf w.outcome) = none) :
    Thrifty make keyOf w.now ⟨cache, w :: h.visits⟩ where
  held v hv e he := by
    rcases List.mem_cons.mp hv with rfl | hv
    · exact .inl (hmade e he)
    · rcases hh.held v hv e he with hcached | hdead
      · exact hheld _ e hcached
      · exact .inr (Entry.live_mono hle hdead)
  needed w' earlier hs hran' v hv hkey e he := by
    rcases List.suffix_cons_iff.mp hs with heq | hs
    · obtain ⟨rfl, rfl⟩ := List.cons.inj heq
      rcases hh.held v hv e he with hcached | hdead
      · rw [hkey] at hcached
        have hentry := hran hran'
        simpa [Cache.liveEntry, hcached] using hentry
      · exact Entry.live_mono hle hdead
    · exact hh.needed w' earlier hs hran' v hv hkey e he

theorem Thrifty.call {time : τ} {h : History κ α β τ ρ φ} (hh : Thrifty make keyOf time h)
    (view : α → β) {c : Call τ ρ} (hle : time ≤ c.now) :
    Thrifty make keyOf c.now (h.call view make (keyOf c.outcome) c) := by
  rcases call_outcome view make (keyOf c.outcome) h c with
    ⟨e, hstored, hlive, hcall⟩ | ⟨f, hmake, hdead, hcall⟩ | ⟨e, hmake, hdead, hcall⟩
  · rw [hcall]
    refine hh.push (w := ⟨c, false, .ok (view e.value)⟩) hle ?_ ?_ ?_
    · intro e' hmade
      simp [Visit.Made] at hmade
    · exact fun k e' he' => .inl he'
    · intro hran
      cases hran
  · rw [hcall]
    refine hh.push (w := ⟨c, true, .error f⟩) hle ?_ ?_ ?_
    · intro e' hmade
      simp [Visit.Made, hmake] at hmade
    · exact fun k e' he' => .inl he'
    · exact fun _ => hdead
  · rw [hcall]
    refine hh.push (w := ⟨c, true, .ok (view e.value)⟩) hle ?_ ?_ ?_
    · intro e' hmade
      have hee' : e = e' := by simpa [Visit.Made, hmake] using hmade
      simp [hee']
    · intro k e' he'
      by_cases hk : k = keyOf c.outcome
      · -- the entry that is replaced was dead
        subst hk
        right
        simpa [Cache.liveEntry, he'] using hdead
      · left
        rw [Function.update_of_ne hk]
        exact he'
    · exact fun _ => hdead

end ExpiringCache
