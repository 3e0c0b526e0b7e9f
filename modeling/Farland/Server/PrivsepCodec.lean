/-
# Round trips of the privsep messages

Every field that `encode` writes is read back by the step of `decode` that
stands for it. Five of the seven types end with the check that the message is
used up; the two Kerberos messages return before it, so that whatever stands
behind their fields is accepted with them.

Key theorems: `decode_encode`, **`codec_exact_iff`**.
-/
import Farland.Base.Ber
import Farland.Server.BrokerRoundTrip

namespace Farland
namespace Server
namespace Privsep

open Reader Parse List Option Nat Bool

/-! ### Reading back what was written -/

theorem readString_readsBack {t out : List UInt8} (h : writeString t = some out) : readString.ReadsBack out t := by
  unfold writeString at h
  split_ifs at h with hle
  cases h
  have hlt : t.length < 2 ^ 16 := lt_of_le_of_lt hle (by decide)
  exact .at_ fun _ => (u16le_readsBack hlt).bind (.unless (not_lt.mpr hle) (bytes_readsBack t))

theorem readBlob_readsBack {xs out : List UInt8} (h : writeBlob xs = some out) : readBlob.ReadsBack out xs := by
  unfold writeBlob at h
  split_ifs at h with hle
  cases h
  have hlt : xs.length < 2 ^ 32 := lt_of_le_of_lt hle (by decide)
  exact .at_ fun _ => (u32le_readsBack hlt).bind (.unless (not_lt.mpr hle) (bytes_readsBack xs))

theorem u8_flag (b : Bool) : u8.ReadsBack (writeFlag b) b.toNat := u8_readsBack (by cases b <;> decide)

/-- The decoder of a type, without the check behind the last field. -/
def fieldsOf : ℕ → Parse Message
  | 1 => decodeVerifyNtlmRequest
  | 2 => decodeVerifyNtlmResponse
  | 3 => decodeVerifyPasswordRequest
  | 4 => decodeVerifyPasswordResponse
  | 5 => decodeAuthenticated
  | 6 => decodeKerberosRequest
  | 7 => decodeKerberosResponse
  | _ => Parse.fail .invalidValue "unknown privsep message type" lengthPrefix

/-- The fields of a message. -/
def fields : Parse Message := do
  let type ← u8
  fieldsOf type

/-- The numbers of a negotiation have 32 bits. -/
def Message.Fits (m : Message) : Prop :=
  ∀ n, m = .authenticated n → n.requestedProtocols < 2 ^ 32 ∧ n.selectedProtocol < 2 ^ 32

variable {frame : List UInt8} {r : Reader} {m : Message} {pos : ℕ}

theorem decodeAuthenticated_readsBack {n : Negotiation} {body : List UInt8}
    (h : encodeBody (.authenticated n) = some body) (hn : n.requestedProtocols < 2 ^ 32 ∧ n.selectedProtocol < 2 ^ 32) :
    ∃ payload, body = Writer.u8 5 ++ payload ∧ decodeAuthenticated.ReadsBack payload (.authenticated n) := by
  obtain ⟨cookie, requested, selected, _ | ⟨user, domain⟩⟩ := n
  · simp only [encodeBody, bind_eq_bind, bind_eq_some_iff] at h
    obtain ⟨c, hc, x, hx, h⟩ := h
    cases hx
    cases h
    simp only [append_assoc]
    refine ⟨_, rfl, (readString_readsBack hc).bind ((u32le_readsBack hn.1).bind ((u32le_readsBack hn.2).bind ?_))⟩
    exact (u8_flag false).bind (ReadsBack.pure _)
  · simp only [encodeBody, bind_eq_bind, bind_eq_some_iff] at h
    obtain ⟨c, hc, u, hu, d, hd, x, hx, h⟩ := h
    cases hx
    cases h
    simp only [append_assoc]
    refine ⟨_, rfl, (readString_readsBack hc).bind ((u32le_readsBack hn.1).bind ((u32le_readsBack hn.2).bind ?_))⟩
    exact (u8_flag true).bind ((readString_readsBack hu).bind ((readString_readsBack hd).map (ReadsBack.pure _)))

/-- **The fields of every message are read back.** -/
theorem fields_readsBack {body : List UInt8} (h : encodeBody m = some body) (hm : m.Fits) :
    fields.ReadsBack body m := by
  have htype : ∀ {type : ℕ} {payload : List UInt8}, type < 2 ^ 8 → (fieldsOf type).ReadsBack payload m →
      fields.ReadsBack (Writer.u8 type ++ payload) m := fun htype hp => (u8_readsBack htype).bind hp
  cases m with
  | verifyNtlmRequest user domain challenge response =>
    by_cases hlong : maxNtResponse < response.length
    · simp [encodeBody, hlong] at h
    · simp only [encodeBody, if_neg hlong, bind_eq_bind, bind_eq_some_iff] at h
      obtain ⟨u, hu, d, hd, h⟩ := h
      cases h
      simp only [append_assoc]
      refine htype (by decide) ((readString_readsBack hu).bind ((readString_readsBack hd).bind ?_))
      refine (Broker.Wire.readArray_readsBack challenge).bind (.at_ fun _ => ?_)
      have hlt : response.length < 2 ^ 16 := lt_of_le_of_lt (not_lt.mp hlong) (by decide)
      exact (u16le_readsBack hlt).bind (.unless hlong ((bytes_readsBack response).map (ReadsBack.pure _)))
  | verifyNtlmResponse key =>
    cases h
    refine htype (by decide) ((u8_flag _).bind ?_)
    cases key with
    | none => exact ReadsBack.pure _
    | some key => exact (Broker.Wire.readArray_readsBack key).map (ReadsBack.pure _)
  | verifyPasswordRequest user domain password =>
    simp only [encodeBody, bind_eq_bind, bind_eq_some_iff] at h
    obtain ⟨u, hu, d, hd, p, hp, h⟩ := h
    cases h
    simp only [append_assoc]
    refine htype (by decide) ((readString_readsBack hu).bind ((readString_readsBack hd).bind ?_))
    exact (readString_readsBack hp).map (ReadsBack.pure _)
  | verifyPasswordResponse ok =>
    cases h
    refine htype (by decide) ((u8_flag ok).map ?_)
    cases ok <;> exact ReadsBack.pure _
  | authenticated n =>
    obtain ⟨payload, rfl, hp⟩ := decodeAuthenticated_readsBack h (hm n rfl)
    exact htype (by decide) hp
  | kerberosRequest request =>
    simp only [encodeBody, bind_eq_bind, bind_eq_some_iff] at h
    obtain ⟨data, hdata, mic, hmic, oid, hoid, h⟩ := h
    cases h
    simp only [append_assoc]
    have hop : request.op.code < 2 ^ 8 ∧ KerberosOp.ofCode request.op.code = some request.op := by
      cases request.op <;> exact ⟨by decide, rfl⟩
    refine htype (by decide) ((u8_readsBack hop.1).bind ?_)
    rw [hop.2]
    refine (readBlob_readsBack hdata).bind ((readBlob_readsBack hmic).bind ?_)
    exact (readBlob_readsBack hoid).map (ReadsBack.pure _)
  | kerberosResponse response =>
    simp only [encodeBody, bind_eq_bind, bind_eq_some_iff] at h
    obtain ⟨data, hdata, user, huser, domain, hdomain, h⟩ := h
    cases h
    simp only [append_assoc]
    refine htype (by decide) ((u8_flag _).bind ((u8_flag _).bind ((readBlob_readsBack hdata).bind ?_)))
    refine (readString_readsBack huser).bind ((readString_readsBack hdomain).map ?_)
    obtain ⟨ok, _, complete, _, _⟩ := response
    cases ok <;> cases complete <;> exact ReadsBack.pure _

/-! ### The check behind the last field -/

/-- The types that `decode` returns before the check. -/
def isKerberos (type : ℕ) : Bool := type == 6 || type == 7

theorem decodeBody_eq :
    decodeBody = u8 >>= fun type => if isKerberos type = true then fieldsOf type else filling (fieldsOf type) := by
  unfold decodeBody
  congr 1
  funext type
  match type with
  | 0 | 1 | 2 | 3 | 4 | 5 | 6 | 7 => rfl
  | n + 8 => rfl

theorem readString_stable : Stable readString :=
  at_stable.bind fun _ => (readLe_stable 2).bind fun _ => (fail_stable _ _ _).ite (bytes_stable _)

theorem readBlob_stable : Stable readBlob :=
  at_stable.bind fun _ => (readLe_stable 4).bind fun _ => (fail_stable _ _ _).ite (bytes_stable _)

theorem readArray_stable (n : ℕ) : Stable (readArray n) := (bytes_stable n).bind fun _ => pure_stable _

theorem fieldsOf_stable (type : ℕ) : Stable (fieldsOf type) := by
  unfold fieldsOf
  split
  · refine readString_stable.bind fun _ => readString_stable.bind fun _ => (readArray_stable 8).bind fun _ => ?_
    refine at_stable.bind fun _ => (readLe_stable 2).bind fun _ => (fail_stable _ _ _).ite ?_
    exact (bytes_stable _).bind fun _ => pure_stable _
  · exact u8_stable.bind fun _ => ((readArray_stable 16).bind fun _ => pure_stable _).ite (pure_stable _)
  · exact readString_stable.bind fun _ => readString_stable.bind fun _ => readString_stable.bind fun _ => pure_stable _
  · exact u8_stable.bind fun _ => pure_stable _
  · refine readString_stable.bind fun _ => (readLe_stable 4).bind fun _ => (readLe_stable 4).bind fun _ => ?_
    refine u8_stable.bind fun _ => Stable.ite ?_ (pure_stable _)
    exact readString_stable.bind fun _ => readString_stable.bind fun _ => pure_stable _
  · refine u8_stable.bind fun op => ?_
    split
    · exact fail_stable _ _ _
    · exact readBlob_stable.bind fun _ => readBlob_stable.bind fun _ => readBlob_stable.bind fun _ => pure_stable _
  · refine u8_stable.bind fun _ => u8_stable.bind fun _ => readBlob_stable.bind fun _ => ?_
    exact readString_stable.bind fun _ => readString_stable.bind fun _ => pure_stable _
  · exact fail_stable _ _ _

/-- The number of `width` bytes at `pos`. -/
def numberAt (width : ℕ) (frame : List UInt8) (pos : ℕ) : ℕ := LittleEndian.leValue ((frame.drop pos).take width)

/-- Where what has its size in `width` bytes at `pos` ends. -/
def sizedEnd (width : ℕ) (frame : List UInt8) (pos : ℕ) : ℕ := pos + width + numberAt width frame pos

def blobEnd (frame : List UInt8) : ℕ → ℕ := sizedEnd 4 frame
def stringEnd (frame : List UInt8) : ℕ → ℕ := sizedEnd 2 frame

def typeOf (frame : List UInt8) : ℕ := numberAt 1 frame lengthPrefix

/-- Where the fields of a Kerberos message end, by the sizes in the frame. -/
def kerberosEnd (frame : List UInt8) : ℕ :=
  if typeOf frame = 6 then blobEnd frame (blobEnd frame (blobEnd frame 6))
  else stringEnd frame (stringEnd frame (blobEnd frame 7))

/-- The reader at a position of the frame. -/
def readerAt (frame : List UInt8) (pos : ℕ) : Reader := ⟨frame.drop pos, pos⟩

theorem bytes_readerAt {n : ℕ} {a : List UInt8} (h : bytes n (readerAt frame pos) = .ok (a, r)) :
    a = (frame.drop pos).take n ∧ r = readerAt frame (pos + n) ∧ pos + n ≤ max pos frame.length := by
  unfold bytes at h
  split_ifs at h with hlen
  · cases h
  · cases h
    refine ⟨rfl, by simp [readerAt], ?_⟩
    simp only [readerAt, length_drop] at hlen
    omega

theorem readLe_readerAt {n v : ℕ} (h : readLe n (readerAt frame pos) = .ok (v, r)) :
    v = numberAt n frame pos ∧ r = readerAt frame (pos + n) ∧ pos + n ≤ max pos frame.length := by
  unfold readLe at h
  rcases hb : bytes n (readerAt frame pos) with e | ⟨raw, r₁⟩
  · rw [hb] at h
    cases h
  · rw [hb] at h
    cases h
    obtain ⟨rfl, hr⟩ := bytes_readerAt hb
    exact ⟨rfl, hr⟩

theorem sized_readerAt {width limit : ℕ} {what : String} {a : List UInt8}
    (h : (at_ >>= fun start => readLe width >>= fun size =>
      if size > limit then Parse.fail .limitExceeded what start else bytes size) (readerAt frame pos) = .ok (a, r)) :
    r = readerAt frame (sizedEnd width frame pos) ∧ sizedEnd width frame pos ≤ max pos frame.length := by
  obtain ⟨_, _, hat, h⟩ := of_bind_ok h
  cases hat
  obtain ⟨v, r₁, hv, h⟩ := of_bind_ok h
  obtain ⟨rfl, rfl, hle⟩ := readLe_readerAt hv
  split_ifs at h
  · cases h
  · obtain ⟨_, hr, hend⟩ := bytes_readerAt h
    exact ⟨hr, by unfold sizedEnd; omega⟩

theorem readBlob_readerAt {a : List UInt8} (h : readBlob (readerAt frame pos) = .ok (a, r)) :
    r = readerAt frame (blobEnd frame pos) ∧ blobEnd frame pos ≤ max pos frame.length := sized_readerAt h

theorem readString_readerAt {a : Text} (h : readString (readerAt frame pos) = .ok (a, r)) :
    r = readerAt frame (stringEnd frame pos) ∧ stringEnd frame pos ≤ max pos frame.length := sized_readerAt h

/-- What a Kerberos message leaves over begins where its sizes say. -/
theorem fields_kerberos (hk : isKerberos (typeOf frame) = true)
    (h : fields (readerAt frame lengthPrefix) = .ok (m, r)) (hlen : lengthPrefix ≤ frame.length) :
    r = readerAt frame (kerberosEnd frame) ∧ kerberosEnd frame ≤ frame.length := by
  unfold fields at h
  obtain ⟨type, r₁, htype, h⟩ := of_bind_ok h
  obtain ⟨rfl, rfl, hle⟩ := readLe_readerAt htype
  change isKerberos (typeOf frame) = true at hk
  change fieldsOf (typeOf frame) _ = _ at h
  unfold isKerberos at hk
  rw [or_eq_true, beq_iff_eq, beq_iff_eq] at hk
  rcases hk with hk | hk
  · have hend : kerberosEnd frame = blobEnd frame (blobEnd frame (blobEnd frame 6)) := if_pos hk
    rw [hk] at h
    obtain ⟨op, r₂, hop, h⟩ := of_bind_ok h
    obtain ⟨-, rfl, hle₂⟩ := readLe_readerAt hop
    rcases hcode : KerberosOp.ofCode op with _ | code
    · rw [hcode] at h
      cases h
    · rw [hcode] at h
      obtain ⟨_, r₃, hdata, h⟩ := of_bind_ok h
      obtain ⟨rfl, hle₃⟩ := readBlob_readerAt hdata
      obtain ⟨_, r₄, hmic, h⟩ := of_bind_ok h
      obtain ⟨rfl, hle₄⟩ := readBlob_readerAt hmic
      obtain ⟨_, r₅, hoid, h⟩ := of_bind_ok h
      obtain ⟨rfl, hle₅⟩ := readBlob_readerAt hoid
      cases h
      rw [hend]
      exact ⟨rfl, hle₅.trans (max_le (hle₄.trans (max_le (hle₃.trans (max_le (by omega) le_rfl)) le_rfl)) le_rfl)⟩
  · have hend : kerberosEnd frame = stringEnd frame (stringEnd frame (blobEnd frame 7)) := if_neg (by omega)
    rw [hk] at h
    obtain ⟨ok, r₂, hok, h⟩ := of_bind_ok h
    obtain ⟨-, rfl, hle₂⟩ := readLe_readerAt hok
    obtain ⟨complete, r₃, hcomplete, h⟩ := of_bind_ok h
    obtain ⟨-, rfl, hle₃⟩ := readLe_readerAt hcomplete
    obtain ⟨_, r₄, hdata, h⟩ := of_bind_ok h
    obtain ⟨rfl, hle₄⟩ := readBlob_readerAt hdata
    obtain ⟨_, r₅, huser, h⟩ := of_bind_ok h
    obtain ⟨rfl, hle₅⟩ := readString_readerAt huser
    obtain ⟨_, r₆, hdomain, h⟩ := of_bind_ok h
    obtain ⟨rfl, hle₆⟩ := readString_readerAt hdomain
    cases h
    rw [hend]
    exact ⟨rfl, hle₆.trans (max_le (hle₅.trans (max_le (hle₄.trans (max_le (by omega) le_rfl)) le_rfl)) le_rfl)⟩

/-! ### Frames -/

theorem filling_ok {p : Parse Message} {r' : Reader} :
    filling p r = .ok (m, r') ↔ p r = .ok (m, r') ∧ r'.rest = [] := by
  constructor
  · intro h
    obtain ⟨m₁, r₁, hm, h⟩ := of_bind_ok h
    obtain ⟨_, r₂, hend, h⟩ := of_bind_ok h
    cases h
    unfold expectEnd at hend
    split_ifs at hend with hrest
    · cases hend
      exact ⟨hm, hrest⟩
    · cases hend
  · rintro ⟨hm, hrest⟩
    unfold filling
    rw [bind_ok hm, bind_ok (show expectEnd "privsep message" r' = .ok ((), r') from if_pos hrest)]
    rfl

/-- The five other types are checked to be used up. -/
theorem decodeBody_ok :
    decodeBody (readerAt frame lengthPrefix) = .ok (m, r) ↔
      fields (readerAt frame lengthPrefix) = .ok (m, r) ∧ (isKerberos (typeOf frame) = false → r.rest = []) := by
  rw [decodeBody_eq]
  unfold fields
  rcases htype : u8 (readerAt frame lengthPrefix) with e | ⟨type, r₁⟩
  · have hfails : ∀ f : ℕ → Parse Message, (u8 >>= f) (readerAt frame lengthPrefix) ≠ .ok (m, r) := by
      intro f h
      obtain ⟨_, _, hok, _⟩ := of_bind_ok h
      rw [htype] at hok
      cases hok
    exact ⟨fun h => absurd h (hfails _), fun h => absurd h.1 (hfails _)⟩
  · have heq : type = typeOf frame := (readLe_readerAt htype).1
    rw [bind_ok htype, bind_ok htype, heq]
    cases isKerberos (typeOf frame) with
    | true => simp
    | false => simp [filling_ok]

theorem decode_ok :
    decode frame = .ok m ↔ lengthPrefix ≤ frame.length ∧
      numberAt lengthPrefix frame 0 = frame.length - lengthPrefix ∧ frame.length ≤ lengthPrefix + maxMessageSize ∧
        ∃ r, decodeBody (readerAt frame lengthPrefix) = .ok (m, r) := by
  have hstart : ({ rest := frame } : Reader) = readerAt frame 0 := rfl
  unfold decode
  rw [hstart]
  rcases hu : u32le (readerAt frame 0) with e | ⟨length, outer⟩
  · have hshort : frame.length < lengthPrefix := by
      by_contra hlong
      have hfour : 4 ≤ frame.length := not_lt.mp hlong
      unfold u32le readLe bytes at hu
      rw [if_neg (by simpa [readerAt] using hfour)] at hu
      cases hu
    exact ⟨fun h => (by cases h), fun h => absurd h.1 (not_le.mpr hshort)⟩
  · obtain ⟨rfl, rfl, hle⟩ := readLe_readerAt hu
    have hlen : lengthPrefix ≤ frame.length := by
      exact hle
    have hrest : (readerAt frame (0 + 4)).remaining = frame.length - lengthPrefix := by
      simp [Reader.remaining, readerAt, lengthPrefix]
    change (if numberAt lengthPrefix frame 0 ≠ (readerAt frame (0 + 4)).remaining ∨
      numberAt lengthPrefix frame 0 > maxMessageSize then _ else _) = _ ↔ _
    rw [hrest]
    split_ifs with hbad
    · refine ⟨fun h => (by cases h), fun ⟨_, heq, hmax, _⟩ => ?_⟩
      rcases hbad with hne | hgt <;> omega
    · obtain ⟨heq, hmax⟩ := not_or.mp hbad
      rw [not_ne_iff] at heq
      have hbody : (readerAt frame (0 + 4)) = readerAt frame lengthPrefix := rfl
      rw [hbody]
      rcases hd : decodeBody (readerAt frame lengthPrefix) with e | ⟨m₁, r₁⟩
      · exact ⟨fun h => (by cases h), fun ⟨_, _, _, r, hr⟩ => by cases hr⟩
      · constructor
        · intro h
          cases h
          exact ⟨hlen, heq, by omega, r₁, rfl⟩
        · rintro ⟨_, _, _, r, hr⟩
          cases hr
          rfl

/-- Bytes put behind a frame, its length counting them. -/
def extend (frame extra : List UInt8) : List UInt8 :=
  Writer.u32le (frame.length - lengthPrefix + extra.length) ++ frame.drop lengthPrefix ++ extra

/-- Nothing is left behind the last field. -/
def UsedUp (frame : List UInt8) : Prop :=
  ∃ m r, fields (readerAt frame lengthPrefix) = .ok (m, r) ∧ r.rest = []

/-- A frame that holds its message and no more, and cannot be made longer. -/
structure Exact (frame : List UInt8) : Prop where
  usedUp : UsedUp frame
  closed : ∀ extra, extra ≠ [] → ∀ m, decode (extend frame extra) ≠ .ok m

theorem extend_length {extra : List UInt8} (h : lengthPrefix ≤ frame.length) :
    (extend frame extra).length = frame.length + extra.length := by
  simp [extend]
  unfold lengthPrefix at *
  omega

theorem drop_u32le (v : ℕ) (bytes : List UInt8) : (Writer.u32le v ++ bytes).drop lengthPrefix = bytes :=
  drop_left' (Writer.u32le_length v)

theorem numberAt_u32le {v : ℕ} (bytes : List UInt8) (h : v < 2 ^ 32) :
    numberAt lengthPrefix (Writer.u32le v ++ bytes) 0 = v := by
  have htake : (Writer.u32le v ++ bytes).take lengthPrefix = Writer.u32le v := take_left' (Writer.u32le_length v)
  unfold numberAt
  rw [drop_zero, htake, Writer.u32le, LittleEndian.leValue_leBytes]
  exact mod_eq_of_lt h

theorem readerAt_extend (frame extra : List UInt8) :
    readerAt (extend frame extra) lengthPrefix = (readerAt frame lengthPrefix).extend extra := by
  unfold readerAt Reader.extend extend
  rw [append_assoc, drop_u32le]

theorem typeOf_extend (extra : List UInt8) (h : lengthPrefix < frame.length) :
    typeOf (extend frame extra) = typeOf frame := by
  unfold typeOf numberAt extend
  rw [append_assoc, drop_u32le, take_append_of_le_length]
  rw [length_drop]
  omega

/-- What `decode` makes of a frame that grew. -/
theorem decode_extend {extra : List UInt8} {m' : Message} (h : decode frame = .ok m) (hextra : extra ≠ []) :
    decode (extend frame extra) = .ok m' ↔ m' = m ∧ isKerberos (typeOf frame) = true ∧
      frame.length + extra.length ≤ lengthPrefix + maxMessageSize := by
  obtain ⟨hlen, _, _, r, hbody⟩ := decode_ok.mp h
  have hfields := (decodeBody_ok.mp hbody).1
  have hlt : lengthPrefix < frame.length := by
    obtain ⟨_, _, htype, _⟩ := of_bind_ok hfields
    have hle := (readLe_readerAt htype).2.2
    omega
  have hgrown := (u8_stable.bind fieldsOf_stable).ok extra hfields
  change fields _ = _ at hgrown
  rw [← readerAt_extend] at hgrown
  constructor
  · intro h'
    obtain ⟨_, _, hroom, r', hbody'⟩ := decode_ok.mp h'
    obtain ⟨hfields', hend⟩ := decodeBody_ok.mp hbody'
    rw [hgrown] at hfields'
    cases hfields'
    rw [extend_length hlen] at hroom
    refine ⟨rfl, ?_, hroom⟩
    by_contra hplain
    rw [not_eq_true, ← typeOf_extend extra hlt] at hplain
    exact hextra (append_eq_nil_iff.mp (hend hplain)).2
  · rintro ⟨rfl, hk, hroom⟩
    have hsize : frame.length - lengthPrefix + extra.length < 2 ^ 32 :=
      lt_of_le_of_lt (show _ ≤ maxMessageSize by omega) (by decide)
    refine decode_ok.mpr ⟨?_, ?_, ?_, _, decodeBody_ok.mpr ⟨hgrown, fun hplain => ?_⟩⟩
    · rw [extend_length hlen]
      omega
    · rw [extend_length hlen, extend, append_assoc, numberAt_u32le _ hsize]
      omega
    · rwa [extend_length hlen]
    · rw [typeOf_extend extra hlt, hk] at hplain
      cases hplain

theorem decode_encode (h : encode m = some frame) (hm : m.Fits) :
    decode frame = .ok m := by
  simp only [encode, bind_eq_bind, bind_eq_some_iff] at h
  obtain ⟨body, hbody, h⟩ := h
  split_ifs at h with hmax
  cases h
  have hfields := fields_readsBack hbody hm [] lengthPrefix
  rw [append_nil] at hfields
  have hlen : (Writer.u32le body.length ++ body).length = lengthPrefix + body.length := by
    rw [length_append]
    rfl
  refine decode_ok.mpr ⟨by omega, ?_, by omega, _, decodeBody_ok.mpr ⟨hfields, fun _ => rfl⟩⟩
  rw [numberAt_u32le body (lt_of_le_of_lt hmax (by decide))]
  omega

/-- **Every message is read back, and which accepted frames are exact**: all but those of a Kerberos message, which
are when their sizes reach the end of a frame that is as long as one can be. -/
theorem codec_exact_iff (frame : List UInt8) (m : Message) :
    (encode m = some frame → m.Fits → decode frame = .ok m) ∧
      (decode frame = .ok m → (Exact frame ↔ isKerberos (typeOf frame) = false ∨
        kerberosEnd frame = frame.length ∧ frame.length = lengthPrefix + maxMessageSize)) := by
  refine ⟨fun h hm => decode_encode h hm, fun h => ?_⟩
  obtain ⟨hlen, _, hmax, r, hbody⟩ := decode_ok.mp h
  obtain ⟨hfields, hend⟩ := decodeBody_ok.mp hbody
  have hclosed : (∀ extra, extra ≠ [] → ∀ m', decode (extend frame extra) ≠ .ok m') ↔
      isKerberos (typeOf frame) = false ∨ frame.length = lengthPrefix + maxMessageSize := by
    constructor
    · intro hclosed
      by_contra hopen
      obtain ⟨hk, hshort⟩ := not_or.mp hopen
      refine hclosed [0] (cons_ne_nil _ _) m ((decode_extend h (cons_ne_nil _ _)).mpr ⟨rfl, by simpa using hk, ?_⟩)
      simp only [length_singleton]
      omega
    · intro hcases extra hextra m' hm'
      obtain ⟨-, hk, hroom⟩ := (decode_extend h hextra).mp hm'
      have hpos := length_pos_of_ne_nil hextra
      rcases hcases with hplain | hfull
      · rw [hplain] at hk
        cases hk
      · omega
  have husedUp : UsedUp frame ↔ r.rest = [] := by
    constructor
    · rintro ⟨m', r', hfields', hrest⟩
      rw [hfields] at hfields'
      cases hfields'
      exact hrest
    · exact fun hrest => ⟨m, r, hfields, hrest⟩
  have hexact : Exact frame ↔ UsedUp frame ∧ ∀ extra, extra ≠ [] → ∀ m', decode (extend frame extra) ≠ .ok m' :=
    ⟨fun h => ⟨h.usedUp, h.closed⟩, fun h => ⟨h.1, h.2⟩⟩
  rw [hexact, hclosed, husedUp]
  cases hk : isKerberos (typeOf frame) with
  | false => simp [hend hk]
  | true =>
    obtain ⟨rfl, hle⟩ := fields_kerberos hk hfields hlen
    have hrest : (readerAt frame (kerberosEnd frame)).rest = [] ↔ kerberosEnd frame = frame.length := by
      rw [readerAt, drop_eq_nil_iff]
      exact ⟨fun h => le_antisymm hle h, fun h => h.ge⟩
    simp [hrest]

def passwordFrame : List UInt8 := [2, 0, 0, 0, 4, 1]

theorem codec_exact_iff_password :
    decode passwordFrame = .ok (.verifyPasswordResponse true) ∧ Exact passwordFrame := by
  have hdecoded : decode passwordFrame = .ok (.verifyPasswordResponse true) :=
    (codec_exact_iff passwordFrame (.verifyPasswordResponse true)).1 (by decide) fun n h => by cases h
  exact ⟨hdecoded, ((codec_exact_iff passwordFrame _).2 hdecoded).mpr (Or.inl (by decide))⟩

/-- A Kerberos answer with a byte behind it. -/
def kerberosFrame : List UInt8 := [12, 0, 0, 0, 7, 1, 1, 0, 0, 0, 0, 0, 0, 0, 0, 0xFF]

theorem kerberos_trailing_byte :
    ¬ ∀ frame m, decode frame = .ok m → Exact frame := by
  intro hall
  have hdecoded : decode kerberosFrame = .ok (.kerberosResponse { ok := true, complete := true }) := by decide
  obtain ⟨m, r, hfields, hrest⟩ := (hall kerberosFrame _ hdecoded).usedUp
  have hleft : fields (readerAt kerberosFrame lengthPrefix) =
      .ok (.kerberosResponse { ok := true, complete := true }, ⟨[0xFF], 15⟩) := by decide
  rw [hleft] at hfields
  cases hfields
  cases hrest

end Privsep
end Server
end Farland
