import HwoodiwissHelper.Infrastructure.TokenWithExpiration
import HwoodiwissHelper.Library.Threads

/-!
# Concurrent calls of `GetOrRenew`

`GetOrRenew` takes no lock. Calls that overlap read and write the two fields one at a time, so a
call may find the token of one call beside the time of another. How long a token lives after it is
handed out is then bounded by how late a new token reaches its field.
-/

namespace HwoodiwissHelper.Infrastructure

open Threads

/-- Where a call stands: it has read the field `_token`, the clock, the field `_expiresAt`, and so
on. What it remembers of the clock is the reading that it answers for. -/
inductive GetOrRenew (T : Type) where
  | called
  | comparing
  | compared (utcNow : ℤ)
  | renewing
  | made (token : T) (issuedAt : ℤ)
  | assigned (issuedAt : ℤ)
  | expiring (token : T) (issuedAt : ℤ)
  | returning (readAt : ℤ)
  | returned (token : Option T) (readAt : ℤ)
  | threw (ex : Exception)
  deriving DecidableEq, Repr

structure SharedToken (T : Type) where
  cell : TokenWithExpiration T
  utcNow : ℤ
  deriving DecidableEq, Repr

structure Advance (T : Type) where
  utcNow : ℤ
  tokenFactory : Except Exception T

namespace GetOrRenew

variable {T : Type} (localOffset : ℤ) (expirationFactory : T → DateTime)

/-- The clock is read before `_expiresAt`, and `expirationFactory` is given what the field holds
by then. -/
def advance (e : Advance T) (s : SharedToken T) (call : GetOrRenew T) :
    Option (SharedToken T × GetOrRenew T) :=
  let s' : SharedToken T := { s with utcNow := e.utcNow }
  match call with
  | .called => some (s', if s.cell.token.isNone then .renewing else .comparing)
  | .comparing => some (s', .compared e.utcNow)
  | .compared utcNow =>
    let expiresAt := s.cell.expiresAt.toDateTimeOffset localOffset
    -- the conversion of a date whose instant is before the first year
    if expiresAt < 0 then
      some (s', .threw ⟨"ArgumentOutOfRangeException", ["ArgumentException"]⟩)
    else if expiresAt ≤ utcNow then
      some (s', .renewing)
    else
      some (s', .returning utcNow)
  | .renewing =>
    match e.tokenFactory with
    | .error ex => some (s', .threw ex)
    | .ok token => some (s', .made token e.utcNow)
  | .made token issuedAt =>
    some ({ s' with cell := { s.cell with token := some token } }, .assigned issuedAt)
  | .assigned issuedAt =>
    match s.cell.token with
    | none => some (s', .threw ⟨"NullReferenceException", []⟩)
    | some token => some (s', .expiring token issuedAt)
  | .expiring token issuedAt =>
    some ({ s' with cell := { s.cell with expiresAt := expirationFactory token } },
      .returning issuedAt)
  | .returning readAt => some (s', .returned s.cell.token readAt)
  | .returned _ _ => none
  | .threw _ => none

def unassigned : GetOrRenew T → Option ℤ
  | .made _ issuedAt => some issuedAt
  | _ => none

end GetOrRenew

/-- The tokens of a factory live for a lifetime, less a slack; within a delay of the reading that
a factory takes of the clock, its token is in the field. -/
structure TokenSource (T : Type) where
  localOffset : ℤ
  expirationFactory : T → DateTime
  lifetime : ℤ
  slack : ℤ
  delay : ℤ
  slack_nonneg : 0 ≤ slack
  slack_le_lifetime : slack ≤ lifetime
  delay_nonneg : 0 ≤ delay
  Made : T → Prop
  Thrown : Exception → Prop

namespace TokenSource

variable {T : Type} (source : TokenSource T)

def expiry (token : T) : ℤ :=
  (source.expirationFactory token).toDateTimeOffset source.localOffset

/-- Time does not go back, and the factory and the call keep to what is known of them. -/
structure Timely (e : Advance T) (s : SharedToken T) (call : GetOrRenew T) : Prop where
  clock : s.utcNow ≤ e.utcNow
  made : ∀ token, e.tokenFactory = .ok token → source.Made token ∧
    e.utcNow + source.lifetime - source.slack ≤ source.expiry token ∧
      source.expiry token ≤ e.utcNow + source.lifetime
  thrown : ∀ ex, e.tokenFactory = .error ex → source.Thrown ex
  assigned : ∀ issuedAt ∈ call.unassigned, e.utcNow ≤ issuedAt + source.delay

structure Known (s : SharedToken T) (token : T) : Prop where
  made : source.Made token
  nonneg : 0 ≤ source.expiry token
  le : source.expiry token ≤ s.utcNow + source.lifetime

/-- The token in the field lives until a time, or nearly so. Every token that is assigned later
does as well, since the time is not too far ahead. -/
structure Covers (s : SharedToken T) (time : ℤ) : Prop where
  le : time ≤ s.utcNow + source.lifetime
  token : ∃ token, s.cell.token = some token ∧
    time ≤ source.expiry token + source.slack + source.delay

/-- The two fields may belong to different tokens, and fit all the same. -/
structure Fits (s : SharedToken T) : Prop where
  clock : 0 ≤ s.utcNow
  expiresAt_le : s.cell.expiresAt.toDateTimeOffset source.localOffset ≤ s.utcNow + source.lifetime
  expiresAt_nonneg : s.cell.expiresAt = .minValue ∨
    0 ≤ s.cell.expiresAt.toDateTimeOffset source.localOffset
  known : ∀ token, s.cell.token = some token → source.Known s token
  covers : s.cell.token ≠ none →
    source.Covers s (s.cell.expiresAt.toDateTimeOffset source.localOffset)

/-- What holds of a call, wherever the others stand. -/
def Stands (s : SharedToken T) : GetOrRenew T → Prop
  | .called => True
  | .comparing => s.cell.token ≠ none
  | .compared utcNow => s.cell.token ≠ none ∧ utcNow ≤ s.utcNow
  | .renewing => True
  | .made token issuedAt => source.Known s token ∧ issuedAt ≤ s.utcNow ∧
      issuedAt + source.lifetime ≤ source.expiry token + source.slack
  | .assigned issuedAt => source.Covers s issuedAt
  | .expiring token issuedAt => source.Known s token ∧ source.Covers s issuedAt ∧
      source.Covers s (source.expiry token)
  | .returning readAt => source.Covers s readAt
  | .returned token readAt => ∃ t, token = some t ∧ source.Made t ∧
      readAt ≤ source.expiry t + source.slack + source.delay
  | .threw ex => source.Thrown ex ∨ 0 < source.localOffset

/-- What one action of a call may do to the token in the field. -/
structure Moves (s s' : SharedToken T) : Prop where
  clock : s.utcNow ≤ s'.utcNow
  token : s'.cell.token = s.cell.token ∨ ∃ token, s'.cell.token = some token ∧
    s'.utcNow + source.lifetime ≤ source.expiry token + source.slack + source.delay

variable {source} {s s' : SharedToken T}

theorem Moves.token_ne_none (h : source.Moves s s') (hs : s.cell.token ≠ none) :
    s'.cell.token ≠ none := by
  rcases h.token with heq | ⟨token, heq, -⟩
  · rw [heq]
    exact hs
  · rw [heq]
    exact Option.some_ne_none token

theorem Known.moves {token : T} (h : source.Known s token) (hm : s.utcNow ≤ s'.utcNow) :
    source.Known s' token where
  made := h.made
  nonneg := h.nonneg
  le := by
    have hle := h.le
    omega

theorem Covers.moves {time : ℤ} (h : source.Covers s time) (hm : source.Moves s s') :
    source.Covers s' time := by
  have hclock := hm.clock
  have hle := h.le
  refine ⟨by omega, ?_⟩
  rcases hm.token with heq | ⟨token, heq, htoken⟩
  · rw [heq]
    exact h.token
  · exact ⟨token, heq, by omega⟩

/-- The actions of a call do not interfere with another call. -/
theorem Stands.moves {call : GetOrRenew T} (h : source.Stands s call) (hm : source.Moves s s') :
    source.Stands s' call := by
  have hclock := hm.clock
  cases call with
  | called => trivial
  | comparing => exact hm.token_ne_none h
  | compared utcNow => exact ⟨hm.token_ne_none h.1, Int.le_trans h.2 hclock⟩
  | renewing => trivial
  | made token issuedAt =>
    obtain ⟨hknown, hissued, hexpiry⟩ := h
    exact ⟨hknown.moves hclock, Int.le_trans hissued hclock, hexpiry⟩
  | assigned issuedAt => exact Covers.moves h hm
  | expiring token issuedAt =>
    obtain ⟨hknown, hissued, hexpiry⟩ := h
    exact ⟨hknown.moves hclock, hissued.moves hm, hexpiry.moves hm⟩
  | returning readAt => exact Covers.moves h hm
  | returned token readAt => exact h
  | threw ex => exact h

theorem Moves.of_clock {utcNow : ℤ} (h : s.utcNow ≤ utcNow) :
    source.Moves s { s with utcNow := utcNow } :=
  ⟨h, .inl rfl⟩

theorem Fits.of_clock {utcNow : ℤ} (hs : source.Fits s) (h : s.utcNow ≤ utcNow) :
    source.Fits { s with utcNow := utcNow } where
  clock := Int.le_trans hs.clock h
  expiresAt_le := Int.le_trans hs.expiresAt_le (Int.add_le_add_right h source.lifetime)
  expiresAt_nonneg := hs.expiresAt_nonneg
  known token htoken := (hs.known token htoken).moves h
  covers htoken := (hs.covers htoken).moves (.of_clock h)

theorem Fits.assign {utcNow issuedAt : ℤ} {token : T} (hs : source.Fits s)
    (hcall : source.Stands s (.made token issuedAt)) (hclock : s.utcNow ≤ utcNow)
    (hsoon : utcNow ≤ issuedAt + source.delay) :
    let s' : SharedToken T := ⟨{ s.cell with token := some token }, utcNow⟩
    source.Moves s s' ∧ source.Fits s' ∧ source.Stands s' (.assigned issuedAt) := by
  intro s'
  obtain ⟨hknown, hissued, hexpiry⟩ := hcall
  have hexpiry' : utcNow + source.lifetime ≤
      source.expiry token + source.slack + source.delay := by omega
  have hmoves : source.Moves s s' := ⟨hclock, .inr ⟨token, rfl, hexpiry'⟩⟩
  have hexpiresAt := hs.expiresAt_le
  have hknown' : source.Known s' token := hknown.moves hclock
  refine ⟨hmoves, ⟨Int.le_trans hs.clock hclock, ?_, hs.expiresAt_nonneg, ?_, ?_⟩, ?_⟩
  · exact Int.le_trans hexpiresAt (Int.add_le_add_right hclock source.lifetime)
  · intro t ht
    obtain rfl : token = t := Option.some.inj ht
    exact hknown'
  · intro _
    refine ⟨?_, token, rfl, ?_⟩
    · exact Int.le_trans hexpiresAt (Int.add_le_add_right hclock source.lifetime)
    · change s.cell.expiresAt.toDateTimeOffset source.localOffset ≤ _
      omega
  · have hslack := source.slack_nonneg
    have hlifetime := source.slack_le_lifetime
    refine ⟨?_, token, rfl, by omega⟩
    change issuedAt ≤ utcNow + source.lifetime
    omega

theorem Fits.expire {utcNow issuedAt : ℤ} {token : T} (hs : source.Fits s)
    (hcall : source.Stands s (.expiring token issuedAt)) (hclock : s.utcNow ≤ utcNow) :
    let s' : SharedToken T := ⟨{ s.cell with expiresAt := source.expirationFactory token }, utcNow⟩
    source.Moves s s' ∧ source.Fits s' ∧ source.Stands s' (.returning issuedAt) := by
  intro s'
  obtain ⟨hknown, hissued, hexpiry⟩ := hcall
  have hmoves : source.Moves s s' := ⟨hclock, .inl rfl⟩
  refine ⟨hmoves, ⟨Int.le_trans hs.clock hclock, ?_, .inr hknown.nonneg, ?_, ?_⟩, ?_⟩
  · exact Int.le_trans hknown.le (Int.add_le_add_right hclock source.lifetime)
  · intro t ht
    exact (hs.known t ht).moves hclock
  · intro _
    exact hexpiry.moves hmoves
  · exact hissued.moves hmoves

/-- An action keeps what holds of the fields and of its own call. -/
theorem advance_spec {e : Advance T} {call call' : GetOrRenew T} (he : source.Timely e s call)
    (hs : source.Fits s) (hcall : source.Stands s call)
    (h : call.advance source.localOffset source.expirationFactory e s = some (s', call')) :
    source.Moves s s' ∧ source.Fits s' ∧ source.Stands s' call' := by
  have hmoves : source.Moves s { s with utcNow := e.utcNow } := .of_clock he.clock
  have hfits : source.Fits { s with utcNow := e.utcNow } := hs.of_clock he.clock
  cases call with
  | called =>
    obtain ⟨rfl, rfl⟩ := Prod.mk.inj (Option.some.inj h)
    refine ⟨hmoves, hfits, ?_⟩
    split
    · trivial
    next htoken =>
      change s.cell.token ≠ none
      intro hnone
      exact htoken (by rw [hnone, Option.isNone_none])
  | comparing =>
    obtain ⟨rfl, rfl⟩ := Prod.mk.inj (Option.some.inj h)
    exact ⟨hmoves, hfits, hcall, Int.le_refl _⟩
  | compared utcNow =>
    obtain ⟨htoken, hread⟩ := hcall
    simp only [GetOrRenew.advance] at h
    split at h
    next hneg =>
      obtain ⟨rfl, rfl⟩ := Prod.mk.inj (Option.some.inj h)
      refine ⟨hmoves, hfits, .inr ?_⟩
      rcases hs.expiresAt_nonneg with hmin | hnonneg
      · simp only [hmin, DateTime.minValue, DateTime.toDateTimeOffset, minute, second] at hneg
        omega
      · omega
    next =>
      split at h
      · obtain ⟨rfl, rfl⟩ := Prod.mk.inj (Option.some.inj h)
        exact ⟨hmoves, hfits, trivial⟩
      next hlive =>
        obtain ⟨rfl, rfl⟩ := Prod.mk.inj (Option.some.inj h)
        obtain ⟨hle, t, ht, hcovers⟩ := (hs.covers htoken).moves hmoves
        exact ⟨hmoves, hfits, by omega, t, ht, by omega⟩
  | renewing =>
    simp only [GetOrRenew.advance] at h
    split at h
    next ex hex =>
      obtain ⟨rfl, rfl⟩ := Prod.mk.inj (Option.some.inj h)
      exact ⟨hmoves, hfits, .inl (he.thrown ex hex)⟩
    next token htoken =>
      obtain ⟨rfl, rfl⟩ := Prod.mk.inj (Option.some.inj h)
      obtain ⟨hmade, hlower, hupper⟩ := he.made token htoken
      have hclock := hfits.clock
      have hslack := source.slack_le_lifetime
      dsimp only at hclock
      exact ⟨hmoves, hfits, ⟨hmade, by omega, hupper⟩, Int.le_refl _, by omega⟩
  | made token issuedAt =>
    obtain ⟨rfl, rfl⟩ := Prod.mk.inj (Option.some.inj h)
    exact hs.assign hcall he.clock (he.assigned issuedAt rfl)
  | assigned issuedAt =>
    obtain ⟨t, ht, hissued⟩ := hcall.token
    simp only [GetOrRenew.advance, ht] at h
    obtain ⟨rfl, rfl⟩ := Prod.mk.inj (Option.some.inj h)
    have hknown : source.Known s t := hs.known t ht
    have hcovers : source.Covers s (source.expiry t) := by
      have hslack := source.slack_nonneg
      have hdelay := source.delay_nonneg
      exact ⟨hknown.le, t, ht, by omega⟩
    exact ⟨hmoves, hfits, hknown.moves he.clock, hcall.moves hmoves, hcovers.moves hmoves⟩
  | expiring token issuedAt =>
    obtain ⟨rfl, rfl⟩ := Prod.mk.inj (Option.some.inj h)
    exact hs.expire hcall he.clock
  | returning readAt =>
    obtain ⟨rfl, rfl⟩ := Prod.mk.inj (Option.some.inj h)
    obtain ⟨-, t, ht, hread⟩ := hcall
    exact ⟨hmoves, hfits, t, ht, (hs.known t ht).made, hread⟩
  | returned token readAt => cases h
  | threw ex => cases h

variable (source) in
theorem outline (ι : Type) :
    Outline (GetOrRenew.advance source.localOffset source.expirationFactory)
      source.Timely source.Fits fun _ : ι => source.Stands where
  own he hs hcall h := (advance_spec he hs hcall h).2
  other he hs hcall hother h := hother.moves (advance_spec he hs hcall h).1

theorem holds_start {ι : Type} {utcNow : ℤ} (hclock : 0 ≤ utcNow)
    (hmin : -(source.localOffset * minute) ≤ utcNow + source.lifetime) :
    (⟨⟨{}, utcNow⟩, fun _ => .called⟩ : Config ι (SharedToken T) (GetOrRenew T)).Holds
      source.Fits (fun _ => source.Stands) where
  shared := {
    clock := hclock
    expiresAt_le := by
      simp only [DateTime.toDateTimeOffset, DateTime.minValue]
      omega
    expiresAt_nonneg := .inl rfl
    known := nofun
    covers := fun htoken => absurd rfl htoken }
  thread _ := trivial

end TokenSource

namespace GetOrRenew

variable {T : Type} {localOffset : ℤ} {expirationFactory : T → DateTime}

def finished (readAt : ℤ) : Except Exception T → GetOrRenew T
  | .ok token => .returned (some token) readAt
  | .error ex => .threw ex

theorem runThread_renewing (s : TokenWithExpiration T) (utcNow : ℤ)
    (tokenFactory : Except Exception T) : ∃ n,
    let renewed := s.renew expirationFactory tokenFactory
    runThread (advance localOffset expirationFactory) ⟨s, utcNow⟩ .renewing
      (List.replicate n ⟨utcNow, tokenFactory⟩) =
        some (⟨renewed.2, utcNow⟩, finished utcNow renewed.1) := by
  cases tokenFactory with
  | error ex => exact ⟨1, rfl⟩
  | ok token => exact ⟨5, rfl⟩

/-- It does what `getOrRenew` does, if the time in the field is one at all. -/
theorem runThread_called (s : TokenWithExpiration T) (clock utcNow : ℤ)
    (tokenFactory : Except Exception T)
    (hs : s.token = none ∨ 0 ≤ s.expiresAt.toDateTimeOffset localOffset) : ∃ n,
    let answered := s.getOrRenew localOffset expirationFactory utcNow tokenFactory
    runThread (advance localOffset expirationFactory) ⟨s, clock⟩ .called
      (List.replicate n ⟨utcNow, tokenFactory⟩) =
        some (⟨answered.2, utcNow⟩, finished utcNow answered.1) := by
  obtain ⟨n, hn⟩ := runThread_renewing s utcNow tokenFactory
  cases htoken : s.token with
  | none =>
    refine ⟨n + 1, ?_⟩
    rw [TokenWithExpiration.getOrRenew, htoken, List.replicate_succ, runThread, advance]
    simpa [htoken] using hn
  | some token =>
    have hnonneg : ¬ s.expiresAt.toDateTimeOffset localOffset < 0 := by
      rcases hs with hs | hs
      · simp [htoken] at hs
      · omega
    by_cases hrenews : s.expiresAt.toDateTimeOffset localOffset ≤ utcNow
    · refine ⟨n + 3, ?_⟩
      rw [TokenWithExpiration.getOrRenew, htoken]
      simpa [List.replicate_succ, runThread, advance, htoken, hnonneg, hrenews] using hn
    · refine ⟨4, ?_⟩
      rw [TokenWithExpiration.getOrRenew, htoken]
      simp [List.replicate_succ, runThread, advance, htoken, hnonneg, hrenews, finished]

/-- A call that no other comes between answers as `getOrRenew` does, and the others stay where they
are. -/
theorem run_called {ι : Type} [DecidableEq ι] {c : Config ι (SharedToken T) (GetOrRenew T)} {i : ι}
    (hi : c.threads i = .called) (utcNow : ℤ) (tokenFactory : Except Exception T)
    (hs : c.shared.cell.token = none ∨
      0 ≤ c.shared.cell.expiresAt.toDateTimeOffset localOffset) : ∃ n,
    let answered := c.shared.cell.getOrRenew localOffset expirationFactory utcNow tokenFactory
    Transition.run (step (advance localOffset expirationFactory)) c
      (List.replicate n (i, ⟨utcNow, tokenFactory⟩)) =
        .ok ⟨⟨answered.2, utcNow⟩, Function.update c.threads i (finished utcNow answered.1)⟩ := by
  obtain ⟨n, hn⟩ := runThread_called c.shared.cell c.shared.utcNow utcNow tokenFactory hs
  refine ⟨n, ?_⟩
  have halone := run_alone (hi.symm ▸ hn)
  rwa [List.map_replicate] at halone

end GetOrRenew

end HwoodiwissHelper.Infrastructure
