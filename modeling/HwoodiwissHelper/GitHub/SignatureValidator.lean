import HwoodiwissHelper.GitHub.Handling

/-!
# The signature of a request

`GitHubSignatureValidator` hashes the body in the pieces in which it arrives, through one buffer
that is used again for each of them, and rewinds the body. `hashBlocks_spec` is the loop: whatever
the pieces are, a loop that ends has hashed the bytes that were left, and nothing else.
-/

namespace HwoodiwissHelper.GitHub

open Throwing

structure Hmac where
  key : List UInt8
  message : List UInt8 := []
  deriving DecidableEq, Repr

def Hmac.transformBlock (hmac : Hmac) (buffer : List UInt8) (offset count : ℕ) : Hmac :=
  { hmac with message := hmac.message ++ (buffer.drop offset).take count }

def Hmac.hash (p : Platform) (hmac : Hmac) : List UInt8 := p.hmacSha256 hmac.key hmac.message

/-- An array of `ArrayPool<byte>.Shared`, with what its last user left in it. -/
structure RentedBuffer where
  bytes : List UInt8
  size : 4096 ≤ bytes.length

theorem RentedBuffer.length_pos (buffer : RentedBuffer) : 0 < buffer.bytes.length := by
  have hsize := buffer.size
  omega

/-- The loop of `HashDataAsync`. There are fewer reads than the fuel: the last one finds no byte. -/
def hashBlocks : ℕ → Hmac → List UInt8 → BodyStream → Except Exception Unit × Hmac × BodyStream
  | 0, hmac, _, data => (.ok (), hmac, data)
  | fuel + 1, hmac, buffer, data =>
    match data.readAsync buffer with
    | (.error ex, data) => (.error ex, hmac, data)
    | (.ok (bytesRead, buffer), data) =>
      if bytesRead > 0 then
        hashBlocks fuel (hmac.transformBlock buffer 0 bytesRead) buffer data
      else
        (.ok (), hmac, data)

def rewind (data : BodyStream) : BodyStream :=
  if data.canSeek then { data with position := 0 } else data

def hashDataAsync (p : Platform) (hmac : Hmac) (buffer : RentedBuffer) (data : BodyStream) :
    Except Exception (Option (List UInt8)) × Hmac × BodyStream :=
  match hashBlocks (data.remaining.length + 1) hmac buffer.bytes data with
  | (.error ex, hmac, data) => (.error ex, hmac, rewind data)
  | (.ok (), hmac, data) => (.ok (some (hmac.hash p)), hmac, rewind data)

def hexDigit (n : ℕ) : Char := if n < 10 then Char.ofNat (48 + n) else Char.ofNat (55 + n)

def toHexString (bytes : List UInt8) : String :=
  String.ofList (bytes.flatMap fun b => [hexDigit (b.toNat / 16), hexDigit (b.toNat % 16)])

def validateSignatureAsync (p : Platform) (keyBytes : List UInt8) (buffer : RentedBuffer)
    (signature : List UInt16) : Handling Bool := do
  let (digest, hasher) ← onBody fun body =>
    match hashDataAsync p { key := keyBytes } buffer body with
    | (result, hasher, body) => (result.map (·, hasher), body)
  let result :=
    match digest with
    | none => false
    | some digest => p.equalsIgnoreCase signature (asMemory (toHexString digest))
  emit (.validated hasher.message result)
  return result

theorem hashBlocks_spec {fuel : ℕ} (hmac : Hmac) {buffer : List UInt8} {data : BodyStream}
    (hbuffer : buffer ≠ []) (hfuel : data.remaining.length < fuel) :
    ∃ result hmac' data', hashBlocks fuel hmac buffer data = (result, hmac', data') ∧
      data.Same data' ∧ hmac'.key = hmac.key ∧
      (result = .ok () → hmac'.message = hmac.message ++ data.remaining) := by
  induction fuel generalizing hmac buffer data with
  | zero => omega
  | succ fuel ih =>
    cases data.read buffer with
    | failed ex data' hread hsame =>
      exact ⟨.error ex, hmac, data', by simp [hashBlocks, hread], hsame, rfl, nofun⟩
    | chunk chunk data' hread hsame hremaining hlength hprogress =>
      rcases chunk with _ | ⟨byte, chunk⟩
      · have hdone : data.remaining = [] := (hprogress rfl).resolve_left hbuffer
        exact ⟨.ok (), hmac, data', by simp [hashBlocks, hread], hsame, rfl, by simp [hdone]⟩
      · let filled := byte :: chunk ++ buffer.drop (byte :: chunk).length
        have hfilled : filled ≠ [] := by simp [filled]
        have hleft : data'.remaining.length < fuel := by grind
        obtain ⟨result, hmac', data'', hrest, hsame', hkey, hmessage⟩ :=
          ih (hmac.transformBlock filled 0 (byte :: chunk).length) hfilled hleft
        refine ⟨result, hmac', data'', by simpa [hashBlocks, hread, filled] using hrest,
          hsame.trans hsame', hkey, ?_⟩
        intro hok
        rw [hmessage hok, hremaining]
        -- of the buffer only the bytes of this read are hashed
        simp [Hmac.transformBlock, filled]

/-- What was hashed and what is left are always the bytes that were left at first, also when a read
fails. -/
theorem hashBlocks_hashed (fuel : ℕ) (hmac : Hmac) (buffer : List UInt8) (data : BodyStream) :
    (hashBlocks fuel hmac buffer data).2.1.message ++
        (hashBlocks fuel hmac buffer data).2.2.remaining = hmac.message ++ data.remaining := by
  induction fuel generalizing hmac buffer data with
  | zero => rfl
  | succ fuel ih =>
    cases data.read buffer with
    | failed ex data' hread =>
      simp only [hashBlocks, hread]
      rw [BodyStream.remaining_of_readAsync_error hread]
    | chunk chunk data' hread hsame hremaining =>
      simp only [hashBlocks, hread]
      split
      · rw [ih, hremaining]
        -- the bytes behind the chunk are those of an earlier one
        simp [Hmac.transformBlock]
      next hempty =>
        obtain rfl : chunk = [] := List.length_eq_zero_iff.mp (by omega)
        rw [hremaining, List.nil_append]

theorem deliver_lengths (s : BodyStream) (count : ℕ) (buffer : List UInt8) :
    (s.deliver count buffer).1.1 = min (min count buffer.length) s.remaining.length ∧
      (s.deliver count buffer).1.2.length = buffer.length ∧
      (s.deliver count buffer).2.remaining.length =
        s.remaining.length - min count buffer.length := by
  simp only [BodyStream.deliver, BodyStream.remaining, List.length_append, List.length_drop,
    List.length_take]
  refine ⟨trivial, ?_, ?_⟩ <;> omega

/-- The loop ends exactly when the reads find the end of the body. -/
theorem hashBlocks_ok_iff {fuel : ℕ} (hmac : Hmac) {buffer : List UInt8} {data : BodyStream}
    (hbuffer : 0 < buffer.length) (hfuel : data.remaining.length < fuel) :
    (hashBlocks fuel hmac buffer data).1 = .ok () ↔
      BodyStream.Readable buffer.length data.arrivals data.remaining.length := by
  induction fuel generalizing hmac buffer data with
  | zero => omega
  | succ fuel ih =>
    -- whatever a read delivers, the loop goes on exactly when that is something
    have hread (count : ℕ) (arrivals : List Arrival) (hcount : 0 < count)
        (h : data.readAsync buffer = (.ok (data.deliver count buffer).1,
          { (data.deliver count buffer).2 with arrivals })) :
        (hashBlocks (fuel + 1) hmac buffer data).1 = .ok () ↔
          data.remaining.length = 0 ∨ BodyStream.Readable buffer.length arrivals
            (data.remaining.length - min count buffer.length) := by
      obtain ⟨hbytes, hlength, hleft⟩ := deliver_lengths data count buffer
      have htaken : 0 < min count buffer.length := Nat.lt_min.mpr ⟨hcount, hbuffer⟩
      generalize min count buffer.length = taken at hbytes hleft htaken ⊢
      rw [hashBlocks, h]
      simp only
      split
      next hpos =>
        replace hpos : 0 < (data.deliver count buffer).1.1 := hpos
        have hnonempty : data.remaining.length ≠ 0 := by omega
        have hrest (hmac' : Hmac) : (hashBlocks fuel hmac' (data.deliver count buffer).1.2
            { (data.deliver count buffer).2 with arrivals }).1 = .ok () ↔
              BodyStream.Readable buffer.length arrivals (data.remaining.length - taken) := by
          rw [← hleft, ← hlength]
          exact ih hmac' (by omega) (lt_of_eq_of_lt hleft (by omega))
        exact (hrest _).trans (or_iff_right hnonempty).symm
      next hpos =>
        replace hpos : ¬ 0 < (data.deliver count buffer).1.1 := hpos
        have hempty : data.remaining.length = 0 := by omega
        simp [hempty]
    rcases harrivals : data.arrivals with _ | ⟨⟨n⟩ | ⟨ex⟩, arrivals⟩
    · rw [hread buffer.length [] hbuffer (by simp [BodyStream.readAsync, BodyStream.deliver,
        harrivals])]
      simp [BodyStream.Readable]
    · exact hread (n + 1) arrivals (Nat.succ_pos n) (by simp [BodyStream.readAsync, harrivals])
    · simp [hashBlocks, BodyStream.readAsync, harrivals, BodyStream.Readable]

theorem hashDataAsync_spec (p : Platform) (hmac : Hmac) (buffer : RentedBuffer) {data : BodyStream}
    (hseek : data.canSeek = true) :
    ∃ result hmac' data', hashDataAsync p hmac buffer data = (result, hmac', data') ∧
      data.Same data' ∧ data'.position = 0 ∧
      ((∃ ex, result = .error ex) ∨
        hmac' = ⟨hmac.key, hmac.message ++ data.remaining⟩ ∧
          result = .ok (some (hmac'.hash p))) := by
  have hbuffer : buffer.bytes ≠ [] := List.ne_nil_of_length_pos buffer.length_pos
  obtain ⟨result, ⟨key, message⟩, data', hloop, hsame, hkey, hmessage⟩ :=
    hashBlocks_spec hmac hbuffer (Nat.lt_succ_self data.remaining.length)
  have hrewind : rewind data' = { data' with position := 0 } := by
    simp [rewind, hsame.2, hseek]
  cases result with
  | error ex =>
    exact ⟨.error ex, ⟨key, message⟩, rewind data', by simp [hashDataAsync, hloop],
      hrewind ▸ hsame, by simp [hrewind], .inl ⟨ex, rfl⟩⟩
  | ok =>
    refine ⟨_, ⟨key, message⟩, rewind data', by simp only [hashDataAsync, hloop],
      hrewind ▸ hsame, by simp [hrewind], .inr ⟨?_, rfl⟩⟩
    rw [← hkey, ← hmessage rfl]

theorem eval_validateSignatureAsync (p : Platform) (keyBytes : List UInt8) (buffer : RentedBuffer)
    (signature : List UInt16) (c : Context) :
    eval (validateSignatureAsync p keyBytes buffer signature) c =
      match hashBlocks (c.body.remaining.length + 1) { key := keyBytes } buffer.bytes c.body with
      | (.error ex, _, data) => (.error ex, { c with body := rewind data })
      | (.ok (), hmac, data) =>
        let result := p.equalsIgnoreCase signature (asMemory (toHexString (hmac.hash p)))
        (.ok result, { c with
          body := rewind data
          effects := c.effects ++ [.validated hmac.message result] }) := by
  rw [validateSignatureAsync, eval_bind, onBody, eval_onPart, hashDataAsync]
  rcases hashBlocks (c.body.remaining.length + 1) { key := keyBytes } buffer.bytes c.body with
    ⟨ex | _, hmac, data⟩ <;> rfl

/-- Validation hashes the complete body, and leaves it to the next reader. -/
theorem validateSignatureAsync_spec (p : Platform) (keyBytes : List UInt8) (buffer : RentedBuffer)
    (signature : List UInt16) {c : Context} {bytes : List UInt8} (hc : c.Rewound bytes) :
    wp (validateSignatureAsync p keyBytes buffer signature)
      (fun r c' => c'.server = c.server ∧ c'.Rewound bytes ∧
        ((∃ ex, r = .error ex) ∧ c'.effects = c.effects ∨
          ∃ result, r = .ok result ∧
            result = p.equalsIgnoreCase signature
              (asMemory (toHexString (p.hmacSha256 keyBytes bytes))) ∧
            c'.effects = c.effects ++ [.validated bytes result])) c := by
  obtain ⟨result, hmac, data, hhash, ⟨hbytes, hseek⟩, hposition, hresult⟩ :=
    hashDataAsync_spec p { key := keyBytes } buffer hc.canSeek
  have hc' : Context.Rewound { c with body := data } bytes :=
    ⟨hbytes.trans hc.bytes_eq, hposition, hseek.trans hc.canSeek⟩
  simp only [validateSignatureAsync, wp_bind, wp_onBody, hhash]
  rcases hresult with ⟨ex, rfl⟩ | ⟨rfl, rfl⟩
  · exact ⟨rfl, hc', .inl ⟨⟨ex, rfl⟩, rfl⟩⟩
  · simp only [Except.map, then_ok, wp_bind, wp_emit, wp_pure]
    refine ⟨trivial, ⟨hc'.1, hc'.2, hc'.3⟩, .inr ⟨_, rfl, ?_, ?_⟩⟩
    · simp [Hmac.hash, hc.remaining]
    · simp [hc.remaining]

theorem validateSignatureAsync_ok_iff (p : Platform) (keyBytes : List UInt8) (buffer : RentedBuffer)
    (signature : List UInt16) {c : Context} {bytes : List UInt8} (hc : c.Rewound bytes) :
    wp (validateSignatureAsync p keyBytes buffer signature)
      (fun r _ => (∃ result, r = .ok result) ↔
        BodyStream.Readable buffer.bytes.length c.body.arrivals bytes.length) c := by
  have hloop := hashBlocks_ok_iff { key := keyBytes } buffer.length_pos
    (Nat.lt_succ_self c.body.remaining.length)
  rw [wp, eval_validateSignatureAsync, ← hc.remaining, ← hloop]
  rcases hashBlocks (c.body.remaining.length + 1) { key := keyBytes } buffer.bytes c.body with
    ⟨ex | _, hmac, data⟩
  · simp
  · exact iff_of_true ⟨_, rfl⟩ rfl

end HwoodiwissHelper.GitHub
