import HwoodiwissHelper.Result

/-!
# The request body

A stream over the bytes of a body. Each `ReadAsync` copies some of the bytes that are left into the
front of a buffer, at least one as long as there are any, or throws: how many is up to the stream.
-/

namespace HwoodiwissHelper.GitHub

/-- What the next read meets: at least one byte and up to `n + 1`, or an exception. -/
inductive Arrival where
  | upTo (n : ℕ)
  | fails (ex : Exception)
  deriving DecidableEq, Repr

structure BodyStream where
  bytes : List UInt8
  position : ℕ
  canSeek : Bool
  /-- Once they are used up, a read takes as much as the buffer holds. -/
  arrivals : List Arrival
  deriving DecidableEq, Repr

namespace BodyStream

def remaining (s : BodyStream) : List UInt8 := s.bytes.drop s.position

def deliver (s : BodyStream) (count : ℕ) (buffer : List UInt8) :
    (ℕ × List UInt8) × BodyStream :=
  let chunk := s.remaining.take (min count buffer.length)
  ((chunk.length, chunk ++ buffer.drop chunk.length),
    { s with position := s.position + chunk.length })

def readAsync (s : BodyStream) (buffer : List UInt8) :
    Except Exception (ℕ × List UInt8) × BodyStream :=
  match s.arrivals with
  | [] =>
    let (read, s) := s.deliver buffer.length buffer
    (.ok read, s)
  | .upTo n :: arrivals =>
    let (read, s) := s.deliver (n + 1) buffer
    (.ok read, { s with arrivals })
  | .fails ex :: arrivals => (.error ex, { s with arrivals })

def seek (s : BodyStream) : Except Exception Unit × BodyStream :=
  if s.canSeek then
    (.ok (), { s with position := 0 })
  else
    (.error { typeName := "NotSupportedException" }, s)

/-- Reads into a buffer of a size find the end of what is left before one of them fails. -/
def Readable (size : ℕ) : List Arrival → ℕ → Prop
  | [], _ => True
  | .upTo n :: arrivals, left => left = 0 ∨ Readable size arrivals (left - min (n + 1) size)
  | .fails _ :: _, _ => False

def Same (s t : BodyStream) : Prop := t.bytes = s.bytes ∧ t.canSeek = s.canSeek

theorem Same.trans {s t u : BodyStream} (h : s.Same t) (h' : t.Same u) : s.Same u :=
  ⟨h'.1.trans h.1, h'.2.trans h.2⟩

inductive Read (s : BodyStream) (buffer : List UInt8) : Prop where
  | chunk (chunk : List UInt8) (t : BodyStream)
      (hread : s.readAsync buffer = (.ok (chunk.length, chunk ++ buffer.drop chunk.length), t))
      (hsame : s.Same t) (hremaining : s.remaining = chunk ++ t.remaining)
      (hlength : chunk.length ≤ buffer.length)
      (hprogress : chunk = [] → buffer = [] ∨ s.remaining = [])
  | failed (ex : Exception) (t : BodyStream) (hread : s.readAsync buffer = (.error ex, t))
      (hsame : s.Same t) (harrival : .fails ex ∈ s.arrivals)

theorem read_of_deliver {s : BodyStream} {buffer : List UInt8} (count : ℕ)
    (arrivals : List Arrival) (hcount : count = 0 → buffer = [])
    (h : s.readAsync buffer =
      (.ok (s.deliver count buffer).1, { (s.deliver count buffer).2 with arrivals })) :
    s.Read buffer := by
  have hprefix : s.remaining.take (min count buffer.length) <+: s.remaining := List.take_prefix _ _
  refine .chunk _ _ h ⟨rfl, rfl⟩ ?_ ?_ ?_
  · apply (List.prefix_iff_eq_append.mp hprefix).symm.trans
    simp only [deliver, remaining, List.drop_drop]
  · exact Nat.le_trans (List.length_take_le _ _) (Nat.min_le_right _ _)
  · intro hchunk
    rcases List.take_eq_nil_iff.mp hchunk with hmin | hremaining
    · exact .inl (by grind)
    · exact .inr hremaining

theorem read (s : BodyStream) (buffer : List UInt8) : s.Read buffer := by
  rcases harrivals : s.arrivals with _ | ⟨⟨n⟩ | ⟨ex⟩, arrivals⟩
  · exact read_of_deliver buffer.length [] (by simp)
      (by simp [readAsync, harrivals, deliver])
  · exact read_of_deliver (n + 1) arrivals (by simp)
      (by simp [readAsync, harrivals])
  · exact .failed ex { s with arrivals } (by simp [readAsync, harrivals]) ⟨rfl, rfl⟩
      (by simp [harrivals])

theorem remaining_of_readAsync_error {s t : BodyStream} {buffer : List UInt8} {ex : Exception}
    (h : s.readAsync buffer = (.error ex, t)) : t.remaining = s.remaining := by
  rcases harrivals : s.arrivals with _ | ⟨⟨n⟩ | ⟨ex'⟩, arrivals⟩
  · simp [readAsync, harrivals] at h
  · simp [readAsync, harrivals] at h
  · rw [readAsync, harrivals] at h
    obtain ⟨-, rfl⟩ := Prod.mk.inj h
    rfl

/-- Chunks of a body that one read each can return. -/
structure Split (size : ℕ) (body : List UInt8) (chunks : List (List UInt8)) : Prop where
  flatten_eq : chunks.flatten = body
  chunk : ∀ chunk ∈ chunks, chunk ≠ [] ∧ chunk.length ≤ size

def arriving (canSeek : Bool) (seen : List UInt8) (chunks : List (List UInt8)) : BodyStream where
  bytes := seen ++ chunks.flatten
  position := seen.length
  canSeek
  arrivals := chunks.map fun chunk => .upTo (chunk.length - 1)

/-- A read returns the first chunk, over the front of the buffer. -/
theorem readAsync_arriving (canSeek : Bool) (seen : List UInt8) {chunk buffer : List UInt8}
    (chunks : List (List UInt8)) (hchunk : chunk ≠ []) (hfits : chunk.length ≤ buffer.length) :
    (arriving canSeek seen (chunk :: chunks)).readAsync buffer =
      (.ok (chunk.length, chunk ++ buffer.drop chunk.length),
        arriving canSeek (seen ++ chunk) chunks) := by
  have hlength : chunk.length - 1 + 1 = chunk.length :=
    Nat.sub_add_cancel (List.length_pos_iff.mpr hchunk)
  simp [readAsync, arriving, deliver, remaining, hlength, hfits]

/-- After the last chunk a read finds no byte. -/
theorem readAsync_arrived (canSeek : Bool) (seen buffer : List UInt8) :
    (arriving canSeek seen []).readAsync buffer = (.ok (0, buffer), arriving canSeek seen []) := by
  simp [readAsync, arriving, deliver, remaining]

theorem readable_of_not_fails {size : ℕ} {arrivals : List Arrival}
    (h : ∀ ex, .fails ex ∉ arrivals) (left : ℕ) : Readable size arrivals left := by
  induction arrivals generalizing left with
  | nil => trivial
  | cons arrival arrivals ih =>
    cases arrival with
    | upTo n => exact .inr (ih (fun ex hex => h ex (List.mem_cons_of_mem _ hex)) _)
    | fails ex => exact absurd List.mem_cons_self (h ex)

theorem readable_arriving (size : ℕ) (canSeek : Bool) (seen : List UInt8)
    (chunks : List (List UInt8)) (left : ℕ) :
    Readable size (arriving canSeek seen chunks).arrivals left := by
  refine readable_of_not_fails ?_ left
  intro ex hex
  obtain ⟨chunk, -, hchunk⟩ := List.mem_map.mp hex
  cases hchunk

end BodyStream

end HwoodiwissHelper.GitHub
