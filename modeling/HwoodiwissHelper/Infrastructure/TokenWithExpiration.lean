import HwoodiwissHelper.Result
import Mathlib.Data.Int.Basic

/-!
# A token that is renewed

`TokenWithExpiration<T>` keeps a token and the time until which it is handed out. That time is a
`DateTime`, whose meaning depends on its kind and on the zone of the host; the clock is compared as
an instant.
-/

namespace HwoodiwissHelper.Infrastructure

def second : ℤ := 10000000

def minute : ℤ := 60 * second

inductive DateTimeKind where
  | unspecified
  | utc
  | local
  deriving DecidableEq, Repr

/-- Ticks since the first year began; the years are not bounded. -/
structure DateTime where
  ticks : ℤ
  kind : DateTimeKind
  deriving DecidableEq, Repr

namespace DateTime

def minValue : DateTime := ⟨0, .unspecified⟩

/-- The instant of a date, as the ticks of its UTC time. A host is ahead of UTC by its offset, a
number of minutes, and a date of no kind is one of the host. -/
def toDateTimeOffset (localOffset : ℤ) (d : DateTime) : ℤ :=
  match d.kind with
  | .utc => d.ticks
  | .unspecified | .local => d.ticks - localOffset * minute

def toUniversalTime (localOffset : ℤ) (d : DateTime) : DateTime :=
  ⟨d.toDateTimeOffset localOffset, .utc⟩

def addSeconds (d : DateTime) (seconds : ℤ) : DateTime :=
  { d with ticks := d.ticks + seconds * second }

end DateTime

structure TokenWithExpiration (T : Type) where
  expiresAt : DateTime := .minValue
  token : Option T := none
  deriving DecidableEq, Repr

namespace TokenWithExpiration

variable {T : Type} (localOffset : ℤ) (expirationFactory : T → DateTime)

/-- Whether a call makes a new token: there is none, or its time has come. -/
def Renews (s : TokenWithExpiration T) (utcNow : ℤ) : Prop :=
  s.token = none ∨ s.expiresAt.toDateTimeOffset localOffset ≤ utcNow

/-- A factory that throws leaves the token alone. -/
def renew (s : TokenWithExpiration T) :
    Except Exception T → Except Exception T × TokenWithExpiration T
  | .error ex => (.error ex, s)
  | .ok token => (.ok token, ⟨expirationFactory token, some token⟩)

def getOrRenew (s : TokenWithExpiration T) (utcNow : ℤ) (tokenFactory : Except Exception T) :
    Except Exception T × TokenWithExpiration T :=
  match s.token with
  | none => s.renew expirationFactory tokenFactory
  | some token =>
    if s.expiresAt.toDateTimeOffset localOffset ≤ utcNow then
      s.renew expirationFactory tokenFactory
    else
      (.ok token, s)

variable {localOffset} {s : TokenWithExpiration T} {utcNow : ℤ}

theorem getOrRenew_of_renews (h : s.Renews localOffset utcNow) (tokenFactory : Except Exception T) :
    s.getOrRenew localOffset expirationFactory utcNow tokenFactory =
      s.renew expirationFactory tokenFactory := by
  unfold getOrRenew
  rcases h with h | h
  · rw [h]
  · split
    · rfl
    · exact if_pos h

theorem getOrRenew_of_not_renews (h : ¬ s.Renews localOffset utcNow)
    (tokenFactory : Except Exception T) : ∃ token, s.token = some token ∧
      s.getOrRenew localOffset expirationFactory utcNow tokenFactory = (.ok token, s) := by
  obtain ⟨hnone, hlive⟩ := not_or.mp h
  obtain ⟨token, htoken⟩ := Option.ne_none_iff_exists'.mp hnone
  refine ⟨token, htoken, ?_⟩
  rw [getOrRenew, htoken]
  exact if_neg hlive

/-- The time that is kept is the one of the token that is kept. -/
def Consistent (expirationFactory : T → DateTime) (s : TokenWithExpiration T) : Prop :=
  ∀ token, s.token = some token → s.expiresAt = expirationFactory token

variable {expirationFactory} in
theorem consistent_getOrRenew (hs : s.Consistent expirationFactory)
    (tokenFactory : Except Exception T) :
    (s.getOrRenew localOffset expirationFactory utcNow tokenFactory).2.Consistent
      expirationFactory := by
  by_cases h : s.Renews localOffset utcNow
  · rw [getOrRenew_of_renews expirationFactory h]
    cases tokenFactory with
    | error ex => exact hs
    | ok token => simp [renew, Consistent]
  · obtain ⟨token, -, hcached⟩ := getOrRenew_of_not_renews expirationFactory h tokenFactory
    rw [hcached]
    exact hs

end TokenWithExpiration

end HwoodiwissHelper.Infrastructure
