import HwoodiwissHelper.GitHub.CacheKeys
import HwoodiwissHelper.Library.ThriftyCache
import Mathlib.Data.Int.Order.Basic

/-!
# When a token is asked for

Calls of `GetInstallationToken` that follow one another ask GitHub only when they have to: every
token that was received under their key is used up, and no request for it has failed.
-/

namespace HwoodiwissHelper.GitHub

open ExpiringCache Transition

def TokenRequest.answer (c : TokenRequest) : Result InstallationTokenResponse :=
  requestInstallationAccessToken c.1.installationId c.1.permissions c.1.repositories c.2

theorem thrifty_callStep {time : Int} {h h' : TokenRun} {c : Call Int TokenRequest}
    (hh : Thrifty requestedToken (·.1.cacheKey) time h) (hle : time ≤ c.now)
    (hs : callStep h c = .ok h') : Thrifty requestedToken (·.1.cacheKey) c.now h' := by
  obtain rfl : h.call (·.getD "") requestedToken c.outcome.1.cacheKey c = h' := Except.ok.inj hs
  exact hh.call _ hle

theorem thrifty_run {calls : List (Call Int TokenRequest)}
    (hcalls : calls.Pairwise fun c later => c.now ≤ later.now) {time : Int} {h h' : TokenRun}
    (hh : Thrifty requestedToken (·.1.cacheKey) time h) (hfirst : ∀ c ∈ calls, time ≤ c.now)
    (hr : run callStep h calls = .ok h') :
    ∃ last, Thrifty requestedToken (·.1.cacheKey) last h' := by
  induction calls generalizing time h with
  | nil =>
    cases hr
    exact ⟨time, hh⟩
  | cons c calls ih =>
    obtain ⟨s, hs, hr⟩ := (run_cons_eq_ok callStep).mp hr
    obtain ⟨hlater, hcalls⟩ := List.pairwise_cons.mp hcalls
    have hle : time ≤ c.now := hfirst c List.mem_cons_self
    exact ih hcalls (thrifty_callStep hh hle hs) hlater hr

/-- Where calls with any arguments follow one another in time, a call makes a request only if the
earlier requests under its key were answered with tokens that have five minutes to live at most. -/
theorem requests_are_needed {calls : List (Call Int TokenRequest)}
    (hcalls : calls.Pairwise fun c later => c.now ≤ later.now) {h : TokenRun}
    (hr : run callStep .start calls = .ok h) {w : Visit String Int TokenRequest Exception}
    {earlier : List (Visit String Int TokenRequest Exception)}
    (hsuffix : w :: earlier <:+ h.visits) (hran : w.ran = true) :
    ∀ v ∈ earlier, v.outcome.1.cacheKey = w.outcome.1.cacheKey → v.ran = true →
      ∃ r, v.outcome.answer = .success r ∧ ∀ t, r.expiresAt.sub fiveMinutes = .ok t →
        r.expiresAt.utcTicks ≤ w.now + fiveMinutes := by
  intro v hv hkey hasked
  have hdead {e : Entry (Option String) Int} (he : v.Made requestedToken e) :
      e.live w.now = false := by
    cases calls with
    | nil =>
      cases hr
      simp [History.start] at hsuffix
    | cons c calls =>
      obtain ⟨last, hlast⟩ := thrifty_run hcalls (Thrifty.start _ _ c.now)
        (List.forall_mem_cons.mpr ⟨Int.le_refl _, (List.pairwise_cons.mp hcalls).1⟩) hr
      exact hlast.needed w earlier hsuffix hran v hv hkey e he
  cases hanswer : v.outcome.answer with
  | failure problem =>
    have hmade : v.Made requestedToken ⟨some "", none⟩ :=
      ⟨hasked, congrArg createToken hanswer⟩
    cases hdead hmade
  | success r =>
    refine ⟨r, rfl, ?_⟩
    intro t ht
    have hmade : v.Made requestedToken ⟨r.token, some t.utcTicks⟩ := by
      refine ⟨hasked, (congrArg createToken hanswer).trans ?_⟩
      simp [createToken, ht]
    have hnow : ¬ w.now < t.utcTicks := by
      rw [← Entry.live_until r.token, hdead hmade]
      exact Bool.false_ne_true
    rw [DateTimeOffset.utcTicks_of_sub ht] at hnow
    omega

/-- A token that lives for an hour is asked for, returned, and asked for again after 55 minutes,
while another one is asked for under another key. -/
def hourlyCalls : List (Call Int TokenRequest) :=
  [helperCall 0 ["helper"] "one", helperCall 1 ["helper"] "two", helperCall 2 ["other"] "three",
    helperCall 33000000000 ["helper"] "four"]

theorem requests_are_needed_hourly : ∃ h w v rest, run callStep .start hourlyCalls = .ok h ∧
    h.visits.map (·.ran) = [true, true, false, true] ∧ h.visits = w :: rest ∧ v ∈ rest ∧
    ∃ r, v.outcome.answer = .success r ∧ r.token = some "one" ∧
      ∀ t, r.expiresAt.sub fiveMinutes = .ok t →
        r.expiresAt.utcTicks ≤ w.now + fiveMinutes := by
  have hcalls : hourlyCalls.Pairwise fun c later => c.now ≤ later.now := by decide
  obtain ⟨h, hr, hp⟩ := run_of_eval callStep .start hourlyCalls
    (fun h => h.visits.map (·.ran) = [true, true, false, true]) (by decide +kernel)
  have hran := of_decide_eq_true hp
  obtain ⟨w, y, x, v, hvisits, hkey, hone⟩ : ∃ w y x v, h.visits = [w, y, x, v] ∧
      v.outcome.1.cacheKey = w.outcome.1.cacheKey ∧
      ∀ r, v.outcome.answer = .success r → r.token = some "one" := by
    cases hr
    refine ⟨_, _, _, _, rfl, rfl, ?_⟩
    intro r hanswer
    obtain rfl := Result.success.inj hanswer
    rfl
  obtain ⟨hw, -, -, hv⟩ : w.ran = true ∧ y.ran = true ∧ x.ran = false ∧ v.ran = true := by
    simpa [hvisits] using hran
  have hmem : v ∈ [y, x, v] := by simp
  obtain ⟨r, hanswer, hlive⟩ := requests_are_needed hcalls hr
    (hvisits ▸ List.suffix_refl _) hw v hmem hkey hv
  exact ⟨h, w, v, _, hr, hran, hvisits, hmem, r, hanswer, hone r hanswer, hlive⟩

end HwoodiwissHelper.GitHub
