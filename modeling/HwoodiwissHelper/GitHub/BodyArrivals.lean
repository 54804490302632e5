import HwoodiwissHelper.GitHub.SignatureFilter

/-!
# How the body arrives

A body may arrive in any chunks, a read may fail, and the buffer may hold anything at first. None of
this enters the hash: a validation that returns has compared the signature with the HMAC of the
complete body, and in any case a stream that can seek is back at its start.
-/

namespace HwoodiwissHelper.GitHub

open Throwing

structure Context.Arrives (c : Context) (body : List UInt8) : Prop where
  bytes_eq : c.body.bytes = body
  position_eq : c.body.position = 0

structure Validates (p : Platform) (keyBytes : List UInt8) (buffer : RentedBuffer)
    (signature : List UInt16) (body : List UInt8) (accepted : Bool) (c : Context) : Prop where
  returns : BodyStream.Readable buffer.bytes.length c.body.arrivals body.length →
    (eval (validateSignatureAsync p keyBytes buffer signature) c).1 = .ok accepted ∧
      (eval (validateSignatureAsync p keyBytes buffer signature) c).2.effects =
        c.effects ++ [.validated body accepted]
  throws : ¬ BodyStream.Readable buffer.bytes.length c.body.arrivals body.length →
    (∃ ex, (eval (validateSignatureAsync p keyBytes buffer signature) c).1 = .error ex) ∧
      (eval (validateSignatureAsync p keyBytes buffer signature) c).2.effects = c.effects
  /-- Nothing but the body was hashed, also when a read failed. -/
  hashed : (hashDataAsync p { key := keyBytes } buffer c.body).2.1.message <+: body
  rewound : c.body.canSeek = true →
    (eval (validateSignatureAsync p keyBytes buffer signature) c).2.body.position = 0 ∧
      (eval (validateSignatureAsync p keyBytes buffer signature) c).2.body.remaining = body

section Validation

variable (p : Platform) (keyBytes : List UInt8) (buffer : RentedBuffer) (signature : List UInt16)

theorem remaining_rewind {data : BodyStream} {body : List UInt8} (hbytes : data.bytes = body)
    (hseek : data.canSeek = true) :
    (rewind data).position = 0 ∧ (rewind data).remaining = body := by
  simp [rewind, hseek, BodyStream.remaining, hbytes]

theorem validates {c : Context} {body : List UInt8} (hc : c.Arrives body) :
    Validates p keyBytes buffer signature body
      (p.equalsIgnoreCase signature (asMemory (toHexString (p.hmacSha256 keyBytes body)))) c := by
  have hremaining : c.body.remaining = body := by
    rw [BodyStream.remaining, hc.bytes_eq, hc.position_eq, List.drop_zero]
  have hfuel := Nat.lt_succ_self c.body.remaining.length
  have hhashed := hashBlocks_hashed (c.body.remaining.length + 1) { key := keyBytes } buffer.bytes
    c.body
  have hread := hashBlocks_ok_iff { key := keyBytes } buffer.length_pos hfuel
  obtain ⟨result, hmac, data, hloop, ⟨hbytes, hseek⟩, hkey, hmessage⟩ :=
    hashBlocks_spec { key := keyBytes } (List.ne_nil_of_length_pos buffer.length_pos) hfuel
  have heval := eval_validateSignatureAsync p keyBytes buffer signature c
  have hdata := hashDataAsync.eq_1 p { key := keyBytes } buffer c.body
  rw [hloop] at hhashed hread heval hdata
  rw [hremaining] at hhashed hread hmessage
  have hrewound (h : c.body.canSeek = true) := remaining_rewind (hbytes.trans hc.bytes_eq)
    (hseek.trans h)
  cases result with
  | error ex =>
    refine ⟨fun h => ?_, fun _ => ?_, ?_, ?_⟩
    · exact absurd (hread.mpr h) (by simp)
    · rw [heval]
      exact ⟨⟨ex, rfl⟩, rfl⟩
    · rw [hdata]
      exact ⟨_, hhashed⟩
    · rw [heval]
      exact hrewound
  | ok =>
    have hhash : hmac.hash p = p.hmacSha256 keyBytes body := by
      rw [Hmac.hash, hkey, hmessage rfl, List.nil_append]
    refine ⟨fun _ => ?_, fun h => absurd (hread.mp rfl) h, ?_, ?_⟩
    · rw [heval]
      simp only [hhash, hmessage rfl, List.nil_append, and_self]
    · rw [hdata]
      exact ⟨_, hhashed⟩
    · rw [heval]
      exact hrewound

end Validation

/-- There is one answer to a signature and a body, however the body arrives: in chunks, with reads
that fail, through any buffer. -/
theorem validation_independent {p : Platform} (hp : p.AsDocumented) (keyBytes body : List UInt8)
    (signature : List UInt16) :
    ∃ accepted : Bool,
      (accepted = true ↔ signature.map upperAscii =
        (asMemory (toHexString (p.hmacSha256 keyBytes body))).map upperAscii) ∧
      (∀ (buffer : RentedBuffer) (c : Context), c.Arrives body →
        Validates p keyBytes buffer signature body accepted c) ∧
      ∀ (buffer : RentedBuffer) (canSeek : Bool) (chunks : List (List UInt8)) (c : Context),
        BodyStream.Split buffer.bytes.length body chunks →
        c.body = BodyStream.arriving canSeek [] chunks →
          (eval (validateSignatureAsync p keyBytes buffer signature) c).1 = .ok accepted := by
  refine ⟨_, hp.equalsIgnoreCase_digits _ _,
    fun buffer c hc => validates p keyBytes buffer signature hc, ?_⟩
  intro buffer canSeek chunks c hsplit hbody
  have hc : c.Arrives body := by
    rw [← hsplit.flatten_eq]
    exact ⟨by rw [hbody]; rfl, by rw [hbody]; rfl⟩
  refine ((validates p keyBytes buffer signature hc).returns ?_).1
  rw [hbody]
  exact BodyStream.readable_arriving _ canSeek [] chunks _

/-- The delivery of the documentation, in two chunks of a stream that cannot seek, with digits in
either case. -/
theorem validation_independent_hello :
    (eval (validateSignatureAsync helloPlatform (utf8 "It's a Secret to Everybody")
      helloEnvironment.buffer
      (asMemory "757107ea0eb2509fc211221cce984b8a37570b6d7586c22c46f4379c8b043E17"))
      ⟨helloServer, .arriving false [] [utf8 "Hello, ", utf8 "World!"], []⟩).1 = .ok true := by
  obtain ⟨accepted, haccepted, -, hchunks⟩ := validation_independent helloPlatform_asDocumented
    (utf8 "It's a Secret to Everybody") (utf8 "Hello, World!")
    (asMemory "757107ea0eb2509fc211221cce984b8a37570b6d7586c22c46f4379c8b043E17")
  obtain rfl : accepted = true := haccepted.mpr (by decide)
  have hbuffer : helloEnvironment.buffer.bytes.length = 4096 := List.length_replicate
  refine hchunks _ false _ _ ⟨by decide, ?_⟩ rfl
  rw [hbuffer]
  decide

end HwoodiwissHelper.GitHub
