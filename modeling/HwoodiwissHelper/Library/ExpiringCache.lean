import HwoodiwissHelper.Library.Transition
import Mathlib.Logic.Function.Basic

/-!
# A cache whose entries may expire

An entry lives until its expiration, or for ever without one. `getOrCreate` returns the value of
a live entry, and otherwise makes an entry, stores it and returns its value. A history keeps the
calls that were made under one key: whatever a call returns was made by it or by an earlier call
whose entry is still alive, and an entry without expiration answers all calls after it.
-/

namespace ExpiringCache

structure Entry (α τ : Type) where
  value : α
  expiration : Option τ := none
  deriving DecidableEq, Repr

variable {κ α β τ ρ φ : Type} [DecidableEq κ] [LT τ] [DecidableLT τ]

def Entry.live (e : Entry α τ) (now : τ) : Bool := e.expiration.all (fun t => decide (now < t))

@[simp] theorem Entry.live_forever (a : α) (now : τ) : (Entry.mk a none).live now := rfl

@[simp] theorem Entry.live_until (a : α) (t now : τ) :
    (Entry.mk a (some t)).live now ↔ now < t := by
  simp [Entry.live]

abbrev Cache (κ α τ : Type) := κ → Option (Entry α τ)

def Cache.liveEntry (cache : Cache κ α τ) (now : τ) (k : κ) : Option (Entry α τ) :=
  (cache k).filter (·.live now)

/-- What a call returns, the cache it leaves, and whether the factory ran. -/
structure Answer (κ α β τ φ : Type) where
  result : Except φ β
  cache : Cache κ α τ
  ran : Bool

/-- A factory that throws leaves the cache alone. -/
def getOrCreate (cache : Cache κ α τ) (now : τ) (k : κ) (factory : Except φ (Entry α τ)) :
    Answer κ α α τ φ :=
  match cache.liveEntry now k with
  | some e => ⟨.ok e.value, cache, false⟩
  | none =>
    match factory with
    | .error f => ⟨.error f, cache, true⟩
    | .ok e => ⟨.ok e.value, Function.update cache k (some e), true⟩

theorem getOrCreate_ran {cache : Cache κ α τ} {now : τ} {k : κ}
    (h : cache.liveEntry now k = none) (factory : Except φ (Entry α τ)) :
    (getOrCreate cache now k factory).ran = true := by
  cases factory <;> simp [getOrCreate, h]

def Answer.map (view : α → β) (r : Answer κ α α τ φ) : Answer κ α β τ φ :=
  ⟨view <$> r.result, r.cache, r.ran⟩

/-- A call: when it is made, and what the factory meets if it runs. -/
structure Call (τ ρ : Type) where
  now : τ
  outcome : ρ
  deriving DecidableEq, Repr

/-- A call that was made: whether the factory ran, and what was returned. -/
structure Visit (β τ ρ φ : Type) extends Call τ ρ where
  ran : Bool
  result : Except φ β

/-- The cache with the calls made so far under one key, the latest first. -/
structure History (κ α β τ ρ φ : Type) where
  cache : Cache κ α τ
  visits : List (Visit β τ ρ φ)

def History.start : History κ α β τ ρ φ := ⟨fun _ => none, []⟩

def History.record (h : History κ α β τ ρ φ) (c : Call τ ρ) (r : Answer κ α β τ φ) :
    History κ α β τ ρ φ :=
  ⟨r.cache, ⟨c, r.ran, r.result⟩ :: h.visits⟩

variable (view : α → β) (make : ρ → Except φ (Entry α τ)) (k : κ)

def History.call (h : History κ α β τ ρ φ) (c : Call τ ρ) : History κ α β τ ρ φ :=
  h.record c ((getOrCreate h.cache c.now k (make c.outcome)).map view)

/-- How a call goes: a live entry answers it, the factory throws, or a new entry is stored. -/
inductive Outcome (h : History κ α β τ ρ φ) (c : Call τ ρ) : Prop where
  | hit (e : Entry α τ) (hstored : h.cache k = some e) (hlive : e.live c.now)
      (hcall : h.call view make k c = ⟨h.cache, ⟨c, false, .ok (view e.value)⟩ :: h.visits⟩)
  | threw (f : φ) (hmake : make c.outcome = .error f)
      (hdead : h.cache.liveEntry c.now k = none)
      (hcall : h.call view make k c = ⟨h.cache, ⟨c, true, .error f⟩ :: h.visits⟩)
  | made (e : Entry α τ) (hmake : make c.outcome = .ok e)
      (hdead : h.cache.liveEntry c.now k = none)
      (hcall : h.call view make k c =
        ⟨Function.update h.cache k (some e), ⟨c, true, .ok (view e.value)⟩ :: h.visits⟩)

theorem call_outcome (h : History κ α β τ ρ φ) (c : Call τ ρ) : Outcome view make k h c := by
  cases hentry : h.cache.liveEntry c.now k with
  | some e =>
    obtain ⟨hstored, hlive⟩ := Option.filter_eq_some_iff.mp hentry
    refine .hit e hstored hlive ?_
    simp [History.call, History.record, Answer.map, getOrCreate, hentry, Functor.map, Except.map]
  | none =>
    cases hmake : make c.outcome with
    | error f =>
      refine .threw f hmake hentry ?_
      simp [History.call, History.record, Answer.map, getOrCreate, hentry, hmake, Functor.map,
        Except.map]
    | ok e =>
      refine .made e hmake hentry ?_
      simp [History.call, History.record, Answer.map, getOrCreate, hentry, hmake, Functor.map,
        Except.map]

def Visit.Made (v : Visit β τ ρ φ) (e : Entry α τ) : Prop := v.ran = true ∧ make v.outcome = .ok e

/-- What a history says about its cache and its calls. -/
structure Faithful (h : History κ α β τ ρ φ) : Prop where
  /-- The entry in the cache was made in some call. -/
  stored : ∀ e, h.cache k = some e → ∃ v ∈ h.visits, v.Made make e
  stays : ∀ v ∈ h.visits, ∀ a, v.Made make ⟨a, none⟩ → h.cache k = some ⟨a, none⟩
  /-- After it no factory runs. -/
  answers : ∀ w v earlier, w :: v :: earlier <:+ h.visits → ∀ a, v.Made make ⟨a, none⟩ →
    w.ran = false

omit [DecidableEq κ] [LT τ] [DecidableLT τ] in
theorem Faithful.start : Faithful make k (History.start : History κ α β τ ρ φ) where
  stored := nofun
  stays := nofun
  answers w v earlier h := by simp [History.start] at h

variable {view make k}

omit [DecidableEq κ] [LT τ] [DecidableLT τ] in
theorem Faithful.push {h : History κ α β τ ρ φ} (hh : Faithful make k h) {cache : Cache κ α τ}
    {w : Visit β τ ρ φ} (hstored : ∀ e, cache k = some e → w.Made make e ∨ h.cache k = some e)
    (hmade : ∀ a, w.Made make ⟨a, none⟩ → cache k = some ⟨a, none⟩)
    (hheld : ∀ a, h.cache k = some ⟨a, none⟩ → w.ran = false ∧ cache k = some ⟨a, none⟩) :
    Faithful make k ⟨cache, w :: h.visits⟩ where
  stored e he := by
    rcases hstored e he with hw | he
    · exact ⟨w, List.mem_cons_self, hw⟩
    · obtain ⟨v, hv, hmade⟩ := hh.stored e he
      exact ⟨v, List.mem_cons_of_mem _ hv, hmade⟩
  stays v hv a hva := by
    rcases List.mem_cons.mp hv with rfl | hv
    · exact hmade a hva
    · have hentry : h.cache k = some ⟨a, none⟩ := hh.stays v hv a hva
      exact (hheld a hentry).2
  answers w' v earlier hs a hva := by
    rcases List.suffix_cons_iff.mp hs with heq | hs
    · obtain ⟨rfl, hvisits⟩ := List.cons.inj heq
      have hv : v ∈ h.visits := by simp [← hvisits]
      have hentry : h.cache k = some ⟨a, none⟩ := hh.stays v hv a hva
      exact (hheld a hentry).1
    · exact hh.answers w' v earlier hs a hva

theorem Faithful.call {h : History κ α β τ ρ φ} (hh : Faithful make k h) (c : Call τ ρ) :
    Faithful make k (h.call view make k c) := by
  -- an entry without expiration is alive at any time
  have hlive {a : α} (ha : h.cache k = some ⟨a, none⟩) :
      h.cache.liveEntry c.now k ≠ none := by
    simp [Cache.liveEntry, ha]
  rcases call_outcome view make k h c with
    ⟨e, hstored, hlive, hcall⟩ | ⟨f, hmake, hdead, hcall⟩ | ⟨e, hmake, hdead, hcall⟩
  · rw [hcall]
    refine hh.push ?_ ?_ ?_
    · intro e' he'
      exact .inr he'
    · intro a hmade
      simp [Visit.Made] at hmade
    · intro a ha
      exact ⟨rfl, ha⟩
  · rw [hcall]
    refine hh.push ?_ ?_ ?_
    · intro e' he'
      exact .inr he'
    · intro a hmade
      simp [Visit.Made, hmake] at hmade
    · intro a ha
      exact absurd hdead (hlive ha)
  · rw [hcall]
    refine hh.push ?_ ?_ ?_
    · intro e' he'
      have hee' : e = e' := by simpa using he'
      exact .inl ⟨rfl, hee' ▸ hmake⟩
    · intro a hmade
      have hea : e = ⟨a, none⟩ := by simpa [Visit.Made, hmake] using hmade
      simp [hea]
    · intro a ha
      exact absurd hdead (hlive ha)

variable (view make) (keyOf : ρ → κ)

/-- Every entry was made by a call under its key, and so was every answer from the cache. -/
structure Sourced (h : History κ α β τ ρ φ) : Prop where
  stored : ∀ k e, h.cache k = some e → ∃ v ∈ h.visits, keyOf v.outcome = k ∧ v.Made make e
  answered : ∀ v earlier, v :: earlier <:+ h.visits → v.ran = false →
    ∃ w ∈ earlier, keyOf w.outcome = keyOf v.outcome ∧
      ∃ e, w.Made make e ∧ v.result = .ok (view e.value)

omit [DecidableEq κ] [LT τ] [DecidableLT τ] in
theorem Sourced.start : Sourced view make keyOf (History.start : History κ α β τ ρ φ) where
  stored := nofun
  answered v earlier h := by simp [History.start] at h

variable {view make keyOf}

omit [DecidableEq κ] [LT τ] [DecidableLT τ] in
/-- One more call: the cache holds what it held or what the call made, and a call without the
factory returns what was held under its key. -/
theorem Sourced.push {h : History κ α β τ ρ φ} (hh : Sourced view make keyOf h)
    {cache : Cache κ α τ} {w : Visit β τ ρ φ}
    (hstored : ∀ k e, cache k = some e →
      keyOf w.outcome = k ∧ w.Made make e ∨ h.cache k = some e)
    (hanswered : w.ran = false →
      ∃ e, h.cache (keyOf w.outcome) = some e ∧ w.result = .ok (view e.value)) :
    Sourced view make keyOf ⟨cache, w :: h.visits⟩ where
  stored k e he := by
    rcases hstored k e he with ⟨hk, hmade⟩ | he
    · exact ⟨w, List.mem_cons_self, hk, hmade⟩
    · obtain ⟨v, hv, hmade⟩ := hh.stored k e he
      exact ⟨v, List.mem_cons_of_mem _ hv, hmade⟩
  answered v earlier hs hran := by
    rcases List.suffix_cons_iff.mp hs with heq | hs
    · obtain ⟨rfl, rfl⟩ := List.cons.inj heq
      obtain ⟨e, he, hresult⟩ := hanswered hran
      obtain ⟨u, hu, hk, hmade⟩ := hh.stored _ e he
      exact ⟨u, hu, hk, e, hmade, hresult⟩
    · exact hh.answered v earlier hs hran

theorem Sourced.call {h : History κ α β τ ρ φ} (hh : Sourced view make keyOf h) (c : Call τ ρ) :
    Sourced view make keyOf (h.call view make (keyOf c.outcome) c) := by
  rcases call_outcome view make (keyOf c.outcome) h c with
    ⟨e, hstored, hlive, hcall⟩ | ⟨f, hmake, hdead, hcall⟩ | ⟨e, hmake, hdead, hcall⟩
  · rw [hcall]
    exact hh.push (fun k e' he' => .inr he') (fun _ => ⟨e, hstored, rfl⟩)
  · rw [hcall]
    exact hh.push (fun k e' he' => .inr he') (fun hran => by cases hran)
  · rw [hcall]
    refine hh.push ?_ (fun hran => by cases hran)
    intro k e' he'
    by_cases hk : k = keyOf c.outcome
    · subst hk
      have hee' : e = e' := by simpa using he'
      exact .inl ⟨rfl, rfl, hee' ▸ hmake⟩
    · rw [Function.update_of_ne hk] at he'
      exact .inr he'

end ExpiringCache
