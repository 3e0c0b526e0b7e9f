/-
# Round trips of the broker messages

Every field that `encode` writes is read back by the step of `decode` that
stands for it, so a well-formed message comes back as it was. For NewConnection,
the message with the most limits, this also says exactly when it can be written,
and that the agent takes it: the sizes of its fields decide, the limit of the
whole message is never reached.

Key theorems: `decode_encode`, `encode_newConnection_isSome`,
`decodeFrom_newConnection`, `decodeFrom_nameless`.
-/
import Farland.Base.ReadBack
import Farland.Server.BrokerWire

namespace Farland
namespace Server
namespace Broker
namespace Wire

open Reader Privsep List Option Bool

/-! ### What can be written -/

theorem writeString_eq_some {t : Text} {max : ℕ} {xs : List UInt8} :
    writeString t max = some xs ↔ t.length ≤ max ∧ xs = Writer.u16le t.length ++ t := by
  simp only [writeString, bind_eq_bind, bind_eq_some_iff, asserts_eq_some]
  constructor
  · rintro ⟨_, hle, h⟩
    cases h
    exact ⟨hle, rfl⟩
  · rintro ⟨hle, rfl⟩
    exact ⟨(), hle, rfl⟩

/-- The names of an identity are within their limit. -/
def Identity.Fits (i : Identity) : Prop := i.user.length ≤ maxLongString ∧ i.domain.length ≤ maxLongString

/-- The bytes of an identity, with the lengths in front of the names. -/
def identityBytes : Option Identity → List UInt8
  | some i => (Writer.u16le i.user.length ++ i.user) ++ (Writer.u16le i.domain.length ++ i.domain)
  | none => []

theorem writeIdentity_eq_some {identity : Option Identity} {xs : List UInt8} :
    writeIdentity identity = some xs ↔ (∀ i, identity = some i → Identity.Fits i) ∧ xs = identityBytes identity := by
  cases identity with
  | none =>
    constructor
    · intro h
      cases h
      exact ⟨fun _ hi => (by cases hi), rfl⟩
    · rintro ⟨-, rfl⟩
      rfl
  | some i =>
    simp only [writeIdentity, bind_eq_bind, bind_eq_some_iff, writeString_eq_some]
    constructor
    · rintro ⟨_, ⟨hu, rfl⟩, _, ⟨hd, rfl⟩, h⟩
      cases h
      refine ⟨fun j hj => ?_, rfl⟩
      cases hj
      exact ⟨hu, hd⟩
    · rintro ⟨hi, rfl⟩
      exact ⟨_, ⟨(hi i rfl).1, rfl⟩, _, ⟨(hi i rfl).2, rfl⟩, rfl⟩

variable {n : Negotiation}

theorem writeNegotiation_eq_some {xs : List UInt8} :
    writeNegotiation n = some xs ↔ n.cookie.length ≤ maxShortString ∧ (∀ i, n.identity = some i → Identity.Fits i) ∧
      xs = (Writer.u16le n.cookie.length ++ n.cookie) ++ (Writer.u32le n.requestedProtocols ++
        (Writer.u32le n.selectedProtocol ++ (writeFlag n.identity.isSome ++ identityBytes n.identity))) := by
  simp only [writeNegotiation, bind_eq_bind, bind_eq_some_iff, writeString_eq_some, writeIdentity_eq_some]
  constructor
  · rintro ⟨_, ⟨hc, rfl⟩, _, ⟨hi, rfl⟩, h⟩
    cases h
    exact ⟨hc, hi, rfl⟩
  · rintro ⟨hc, hi, rfl⟩
    exact ⟨_, ⟨hc, rfl⟩, _, ⟨hi, rfl⟩, rfl⟩

/-! ### Reading back what was written -/

open Parse

theorem readString_readsBack {t : Text} {max : ℕ} (h : t.length ≤ max) (hmax : max < 2 ^ 16) :
    (readString max).ReadsBack (Writer.u16le t.length ++ t) t :=
  .at_ fun _ => (u16le_readsBack (by omega)).bind (.unless (by omega) (bytes_readsBack t))

theorem readFlag_readsBack (b : Bool) : readFlag.ReadsBack (writeFlag b) b := by
  refine .at_ fun _ => (u8_readsBack (v := b.toNat) (by cases b <;> decide)).map ?_
  cases b
  · exact ReadsBack.pure _
  · exact ReadsBack.pure _

theorem readEnum_readsBack {α : Type} {ofCode : ℕ → Option α} {code : ℕ} {a : α} (what : String)
    (h : ofCode code = some a) (hcode : code < 2 ^ 8) : (readEnum ofCode what).ReadsBack (Writer.u8 code) a := by
  refine .at_ fun _ => (u8_readsBack hcode).map ?_
  rw [h]
  exact ReadsBack.pure a

theorem readArray_readsBack {n : ℕ} (v : List.Vector UInt8 n) : (readArray n).ReadsBack v.toList v := by
  have hb : (bytes n).ReadsBack v.toList v.toList := by
    have h := bytes_readsBack v.toList
    rwa [v.toList_length] at h
  refine hb.map ?_
  have hv : (⟨(v.toList ++ Writer.zeros n).take n, by simp⟩ : List.Vector UInt8 n) = v := by
    apply List.Vector.eq
    change (v.toList ++ Writer.zeros n).take n = v.toList
    rw [take_append_of_le_length (by simp), take_of_length_le (by simp)]
  rw [hv]
  exact ReadsBack.pure v

theorem readOptional_readsBack {α : Type} {read : Parse α} {write : α → List UInt8} (o : Option α)
    (h : ∀ a, o = some a → read.ReadsBack (write a) a) : (readOptional read).ReadsBack (writeOptional write o) o := by
  cases o with
  | none => exact (readFlag_readsBack false).map (ReadsBack.pure none)
  | some a => exact (readFlag_readsBack true).bind ((h a rfl).map (ReadsBack.pure (some a)))

/-- A signed 32-bit number. -/
def IsI32 (v : ℤ) : Prop := -2 ^ 31 ≤ v ∧ v < 2 ^ 31

theorem readI32_readsBack {v : ℤ} (h : IsI32 v) : readI32.ReadsBack (writeI32 v) v := by
  have hlt : toUnsigned 32 v < 2 ^ 32 := by
    unfold toUnsigned
    omega
  refine (u32le_readsBack hlt).map ?_
  have hv : toSigned 32 (toUnsigned 32 v) = v := by
    unfold IsI32 at h
    unfold toSigned toUnsigned
    split_ifs <;> omega
  rw [hv]
  exact ReadsBack.pure v

/-- What `read_negotiation` takes, besides the limits. -/
structure Negotiable (n : Negotiation) : Prop where
  requested : n.requestedProtocols < 2 ^ 32
  known : knownProtocol n.selectedProtocol = true
  nla : n.identity.isSome = isNla n.selectedProtocol
  named : ∀ i, n.identity = some i → i.user ≠ []

theorem knownProtocol_lt {protocol : ℕ} (h : knownProtocol protocol = true) : protocol < 2 ^ 32 := by
  simp only [knownProtocol, isNla, or_eq_true, beq_iff_eq, protocolRdp, protocolSsl, protocolHybrid,
    protocolHybridEx] at h
  omega

variable {i : Identity}

theorem readIdentity_readsBack (h : Identity.Fits i) (hu : i.user ≠ []) (o : ℕ) :
    (readIdentity o).ReadsBack (identityBytes (some i)) i :=
  (readString_readsBack h.1 (by decide)).bind ((readString_readsBack h.2 (by decide)).map
    (.unless hu (ReadsBack.pure i)))

theorem readNegotiation_readsBack {xs : List UInt8} (h : writeNegotiation n = some xs) (hn : Negotiable n) :
    readNegotiation.ReadsBack xs n := by
  obtain ⟨hc, hi, rfl⟩ := writeNegotiation_eq_some.mp h
  refine (readString_readsBack hc (by decide)).bind ((u32le_readsBack hn.requested).bind (.at_ fun _ => ?_))
  refine (u32le_readsBack (knownProtocol_lt hn.known)).bind (.unless (by rw [hn.known]; decide) (.at_ fun o => ?_))
  refine (readFlag_readsBack _).bind (.unless (not_not.mpr hn.nla) ?_)
  obtain ⟨cookie, requested, selected, identity⟩ := n
  cases identity with
  | none => exact ReadsBack.pure _
  | some i => exact (readIdentity_readsBack (hi i rfl) (hn.named i rfl) o).map (ReadsBack.pure _)

theorem readIdentity_fails (h : Identity.Fits i) (hu : i.user = []) (o : ℕ) :
    (readIdentity o).FailsOn (identityBytes (some i)) := by
  refine (readString_readsBack h.1 (by decide)).fails ?_
  rw [← append_nil (Writer.u16le i.domain.length ++ i.domain)]
  refine (readString_readsBack h.2 (by decide)).fails fun rest o => ?_
  rw [if_pos hu]
  exact ⟨_, rfl⟩

/-- An NLA user without a name is refused. -/
theorem readNegotiation_fails {xs : List UInt8} (h : writeNegotiation n = some xs)
    (hreq : n.requestedProtocols < 2 ^ 32) (hsel : isNla n.selectedProtocol = true) (hid : n.identity = some i)
    (hu : i.user = []) : readNegotiation.FailsOn xs := by
  have hknown : knownProtocol n.selectedProtocol = true := by rw [knownProtocol, hsel, Bool.or_true]
  obtain ⟨hc, hi, rfl⟩ := writeNegotiation_eq_some.mp h
  refine (readString_readsBack hc (by decide)).fails ((u32le_readsBack hreq).fails (.at_ fun _ => ?_))
  refine (u32le_readsBack (knownProtocol_lt hknown)).fails ?_
  rw [if_neg (by rw [hknown]; decide)]
  refine .at_ fun o => (readFlag_readsBack _).fails ?_
  rw [hid, hsel]
  exact (readIdentity_fails (hi i hid) hu o).bind

/-! ### Round trips -/

/-- The bitrates are in range; the numbers fit their fields. -/
structure Settings.WellFormed (m : Settings) : Prop where
  bitrate : m.h264BitrateKbps ≤ maxBitrateKbps
  minBitrate : m.h264MinBitrateKbps ≤ maxBitrateKbps
  maxBitrate : m.h264MaxBitrateKbps ≤ maxBitrateKbps

structure Monitor.WellFormed (m : Monitor) : Prop where
  left : IsI32 m.left
  top : IsI32 m.top
  right : IsI32 m.right
  bottom : IsI32 m.bottom
  upright : m.left ≤ m.right ∧ m.top ≤ m.bottom

structure ClientSummary.WellFormed (c : ClientSummary) : Prop where
  width : c.desktopWidth ≠ 0 ∧ c.desktopWidth < 2 ^ 16
  height : c.desktopHeight ≠ 0 ∧ c.desktopHeight < 2 ^ 16
  keyboardLayout : c.keyboardLayout < 2 ^ 32
  keyboardType : c.keyboardType < 2 ^ 32
  keyboardSubtype : c.keyboardSubtype < 2 ^ 32
  clientBuild : c.clientBuild < 2 ^ 32
  scale : ∀ v, c.desktopScaleFactor = some v → v < 2 ^ 32
  monitors : ∀ m ∈ c.monitors, m.WellFormed

structure NewConnection.WellFormed (m : NewConnection) : Prop where
  connectionId : m.connectionId < 2 ^ 64
  negotiation : Negotiable m.negotiation
  elapsedMs : m.elapsedMs < 2 ^ 32
  client : ∀ c, m.client = some c → c.WellFormed
  autoReconnect : ∀ c, m.autoReconnect = some c → c.logonId < 2 ^ 32

variable {xs body frame : List UInt8} {m : NewConnection}

structure Stats.WellFormed (m : Stats) : Prop where
  connectionId : m.connectionId < 2 ^ 64
  sessionSeconds : m.sessionSeconds < 2 ^ 32
  idleSeconds : m.idleSeconds < 2 ^ 32
  desktopWidth : m.desktopWidth < 2 ^ 16
  desktopHeight : m.desktopHeight < 2 ^ 16
  framesSent : m.framesSent < 2 ^ 64
  bytesSent : m.bytesSent < 2 ^ 64
  bytesReceived : m.bytesReceived < 2 ^ 64
  rttMs : m.rttMs < 2 ^ 32
  bandwidthKbps : m.bandwidthKbps < 2 ^ 32

def Message.WellFormed : Message → Prop
  | .hello version _ => version < 2 ^ 16
  | .settings m => m.WellFormed
  | .newConnection m => m.WellFormed
  | .disconnect connectionId errorInfo => connectionId < 2 ^ 64 ∧ errorInfo < 2 ^ 32
  | .consentRequest m => m.connectionId < 2 ^ 64
  | .consentCancel connectionId | .consentReply connectionId _ => connectionId < 2 ^ 64
  | .stats m => m.WellFormed
  | .seatTakeover _ | .seatGreeter | .sessionEnded _ _ | .terminate _ => True

theorem readMonitor_readsBack {m : Monitor} (h : m.WellFormed) : readMonitor.ReadsBack (writeMonitor m) m := by
  refine .at_ fun _ => (readI32_readsBack h.left).bind ((readI32_readsBack h.top).bind ?_)
  refine (readI32_readsBack h.right).bind ((readI32_readsBack h.bottom).bind ((readFlag_readsBack _).map ?_))
  have hup := h.upright
  exact .unless (by omega) (ReadsBack.pure m)

theorem readClient_readsBack {c : ClientSummary} (h : writeClient c = some xs) (hc : c.WellFormed) :
    readClient.ReadsBack xs c := by
  simp only [writeClient, bind_eq_bind, bind_eq_some_iff, asserts_eq_some, writeString_eq_some] at h
  obtain ⟨_, hmonitors, _, ⟨hname, rfl⟩, h⟩ := h
  cases h
  refine .at_ fun _ => (u16le_readsBack hc.width.2).bind ((u16le_readsBack hc.height.2).bind ?_)
  refine .unless (not_or.mpr ⟨hc.width.1, hc.height.1⟩) ?_
  refine (u32le_readsBack hc.keyboardLayout).bind ((u32le_readsBack hc.keyboardType).bind ?_)
  refine (u32le_readsBack hc.keyboardSubtype).bind ((u32le_readsBack hc.clientBuild).bind ?_)
  refine (readString_readsBack hname (by decide)).bind ?_
  refine (readOptional_readsBack _ fun v hv => u32le_readsBack (hc.scale v hv)).bind (.at_ fun _ => ?_)
  refine (u8_readsBack (lt_of_le_of_lt hmonitors (by decide))).bind (.unless (not_lt.mpr hmonitors) ?_)
  exact (readMany_readsBack _ fun m hm => readMonitor_readsBack (hc.monitors m hm)).map (ReadsBack.pure c)

theorem readCookie_readsBack {c : ReconnectCookie} (h : c.logonId < 2 ^ 32) :
    readCookie.ReadsBack (writeCookie c) c :=
  (u32le_readsBack h).bind ((readArray_readsBack _).map (ReadsBack.pure c))

theorem readPendingInput_readsBack (h : xs.length ≤ maxPendingInput) :
    readPendingInput.ReadsBack (Writer.u32le xs.length ++ xs) xs :=
  .at_ fun _ => (u32le_readsBack (lt_of_le_of_lt h (by decide))).bind (.unless (not_lt.mpr h) (bytes_readsBack xs))

theorem readConnectionId_readsBack {id : ℕ} (h0 : id ≠ 0) (h : id < 2 ^ 64) :
    readConnectionId.ReadsBack (Writer.u64le id) id :=
  .at_ fun _ => (u64le_readsBack h).map (.unless h0 (ReadsBack.pure id))

theorem readPresent_readsBack {client : Option ClientSummary} (h : writePresent client = some xs)
    (hc : ∀ c, client = some c → c.WellFormed) : (readOptional readClient).ReadsBack xs client := by
  cases client with
  | none =>
    cases h
    exact (readFlag_readsBack false).map (ReadsBack.pure none)
  | some c =>
    simp only [writePresent, bind_eq_bind, bind_eq_some_iff] at h
    obtain ⟨summary, hs, h⟩ := h
    cases h
    exact (readFlag_readsBack true).bind ((readClient_readsBack hs (hc c rfl)).map (ReadsBack.pure (some c)))

/-- Behind the type, the decoder of `m` gives it back. -/
def BodyReadsBack (type : ℕ) (read : Parse Message) (body : List UInt8) (m : Message) : Prop :=
  ∃ payload, body = Writer.u8 type ++ payload ∧ read.ReadsBack payload m

theorem decodeNewConnection_readsBack (h : encodeNewConnection m = some body)
    (hm : m.WellFormed) : BodyReadsBack 2 decodeNewConnection body (.newConnection m) := by
  simp only [encodeNewConnection, bind_eq_bind, bind_eq_some_iff, asserts_eq_some, writeString_eq_some] at h
  obtain ⟨_, hid, _, hinput, _, -, _, hn, _, ⟨hpassword, rfl⟩, _, ⟨hpeer, rfl⟩, _, hclient, h⟩ := h
  cases h
  refine ⟨_, rfl, (readConnectionId_readsBack hid hm.connectionId).bind ?_⟩
  refine (readNegotiation_readsBack hn hm.negotiation).bind ?_
  refine (readString_readsBack hpassword (by decide)).bind ((readString_readsBack hpeer (by decide)).bind ?_)
  refine (u32le_readsBack hm.elapsedMs).bind ((readPresent_readsBack hclient hm.client).bind ?_)
  refine (readOptional_readsBack _ fun c hc => readCookie_readsBack (hm.autoReconnect c hc)).bind ?_
  exact (readPendingInput_readsBack hinput).map (ReadsBack.pure _)

theorem decodeConsentRequest_readsBack {m : ConsentRequest}
    (h : encodeConsentRequest m = some body) (hm : m.connectionId < 2 ^ 64) :
    BodyReadsBack 8 decodeConsentRequest body (.consentRequest m) := by
  simp only [encodeConsentRequest, bind_eq_bind, bind_eq_some_iff, asserts_eq_some, writeString_eq_some] at h
  obtain ⟨_, hid, _, ⟨hmin, hmax⟩, _, ⟨huser, rfl⟩, _, ⟨hpeer, rfl⟩, _, ⟨hname, rfl⟩, h⟩ := h
  cases h
  refine ⟨_, rfl, (readConnectionId_readsBack hid hm).bind ?_⟩
  refine (readString_readsBack huser (by decide)).bind ((readString_readsBack hpeer (by decide)).bind ?_)
  refine (readString_readsBack hname (by decide)).bind (.at_ fun _ => ?_)
  refine (u32le_readsBack (lt_of_le_of_lt hmax (by decide))).bind (.unless (by omega) ?_)
  exact (readFlag_readsBack _).bind ((readFlag_readsBack _).map (ReadsBack.pure _))

theorem Settings.withFlags_flags (m base : Settings) :
    base.withFlags m.flags = { base with
      zeroCopy := m.zeroCopy, clearcodec := m.clearcodec, refine := m.refine, videoRegions := m.videoRegions
      losslessStill := m.losslessStill, audio := m.audio, microphone := m.microphone, camera := m.camera
      clipboard := m.clipboard } := rfl

theorem decodeBitrates_readsBack {m base : Settings} (hm : m.WellFormed) (hbase : { base with
      h264BitrateKbps := m.h264BitrateKbps, h264MinBitrateKbps := m.h264MinBitrateKbps
      h264MaxBitrateKbps := m.h264MaxBitrateKbps } = m) :
    (decodeBitrates base).ReadsBack (Writer.u32le m.h264BitrateKbps ++ (Writer.u32le m.h264MinBitrateKbps ++
      Writer.u32le m.h264MaxBitrateKbps)) (.settings m) := by
  have hlt : maxBitrateKbps < 2 ^ 32 := by decide
  refine .at_ fun _ => (u32le_readsBack (lt_of_le_of_lt hm.bitrate hlt)).bind ?_
  refine (u32le_readsBack (lt_of_le_of_lt hm.minBitrate hlt)).bind ?_
  refine (u32le_readsBack (lt_of_le_of_lt hm.maxBitrate hlt)).map (.unless ?_ ?_)
  · have h1 := hm.bitrate
    have h2 := hm.minBitrate
    have h3 := hm.maxBitrate
    omega
  · rw [hbase]
    exact ReadsBack.pure _

theorem decodeSettings_readsBack {m : Settings} (h : encodeSettings m = some body)
    (hm : m.WellFormed) : BodyReadsBack 7 decodeSettings body (.settings m) := by
  simp only [encodeSettings, bind_eq_bind, bind_eq_some_iff, asserts_eq_some, writeString_eq_some] at h
  obtain ⟨_, ⟨hrmin, hrmax⟩, _, ⟨hamin, hamax⟩, _, ⟨hlibrary, rfl⟩, _, ⟨hnode, rfl⟩, h⟩ := h
  cases h
  refine ⟨_, rfl, .at_ fun _ => (u16le_readsBack (lt_of_le_of_lt hrmax (by decide))).bind (.unless (by omega) ?_)⟩
  refine (readEnum_readsBack _ (a := m.bitmapCodec) ?_ ?_).bind ?_
  · cases m.bitmapCodec <;> rfl
  · cases m.bitmapCodec <;> decide
  refine (readEnum_readsBack _ (a := m.gfxCodec) ?_ ?_).bind ((readFlag_readsBack _).bind ?_)
  · cases m.gfxCodec <;> rfl
  · cases m.gfxCodec <;> decide
  refine (readEnum_readsBack _ (a := m.h264Backend.getD .openh264) ?_ ?_).bind ?_
  · rcases m.h264Backend with _ | b
    · rfl
    · cases b <;> rfl
  · rcases m.h264Backend with _ | b
    · decide
    · cases b <;> decide
  refine (readString_readsBack hlibrary (by decide)).bind ((readString_readsBack hnode (by decide)).bind ?_)
  refine (readMany_readsBack m.flags fun b _ => readFlag_readsBack b).bind ?_
  refine (readEnum_readsBack _ (a := m.autodetect) ?_ ?_).bind (.at_ fun _ => ?_)
  · cases m.autodetect <;> rfl
  · cases m.autodetect <;> decide
  refine (u32le_readsBack (lt_of_le_of_lt hamax (by decide))).bind (.unless (by omega) ?_)
  refine decodeBitrates_readsBack hm ?_
  rcases m with ⟨_, _, _, _, _, _, _ | b⟩ <;> rfl

theorem decodeStats_readsBack {m : Stats} (hm : m.WellFormed)
    (h : encodeBody (.stats m) = some body) : BodyReadsBack 5 decodeStats body (.stats m) := by
  cases h
  refine ⟨_, rfl, (u64le_readsBack hm.connectionId).bind ((u32le_readsBack hm.sessionSeconds).bind ?_)⟩
  refine (u32le_readsBack hm.idleSeconds).bind ((u16le_readsBack hm.desktopWidth).bind ?_)
  refine (u16le_readsBack hm.desktopHeight).bind ((u64le_readsBack hm.framesSent).bind ?_)
  refine (u64le_readsBack hm.bytesSent).bind ((u64le_readsBack hm.bytesReceived).bind ?_)
  exact (u32le_readsBack hm.rttMs).bind ((u32le_readsBack hm.bandwidthKbps).map (ReadsBack.pure _))

theorem readReason_readsBack (reason : EndReason) (what : String) :
    (readEnum reasonOfCode what).ReadsBack (Writer.u8 (reasonCode reason)) reason :=
  readEnum_readsBack what (by cases reason <;> rfl) (by cases reason <;> decide)

/-- One rule for the type byte of every message. -/
theorem BodyReadsBack.decodeBody {type : ℕ} {read : Parse Message} {m : Message} (h : BodyReadsBack type read body m)
    (hread : ∀ payload o, Wire.decodeBody ⟨Writer.u8 type ++ payload, o⟩ = read ⟨payload, o + 1⟩) :
    Wire.decodeBody.ReadsBack body m := by
  obtain ⟨payload, rfl, hp⟩ := h
  intro rest o
  rw [append_assoc, hread, hp rest (o + 1)]
  simp only [length_append, Writer.u8_length, Nat.add_assoc]

theorem decodeBody_readsBack {m : Message} (h : encodeBody m = some body) (hm : m.WellFormed) :
    decodeBody.ReadsBack body m := by
  cases m with
  | hello version token =>
    cases h
    have hbody : BodyReadsBack 1 decodeHello _ (.hello version token) :=
      ⟨_, rfl, (u16le_readsBack hm).bind ((readArray_readsBack _).map (ReadsBack.pure _))⟩
    exact hbody.decodeBody fun _ _ => rfl
  | settings m => exact (decodeSettings_readsBack h hm).decodeBody fun _ _ => rfl
  | newConnection m => exact (decodeNewConnection_readsBack h hm).decodeBody fun _ _ => rfl
  | disconnect connectionId errorInfo =>
    simp only [encodeBody, bind_eq_bind, bind_eq_some_iff, asserts_eq_some] at h
    obtain ⟨_, hid, h⟩ := h
    cases h
    have hbody : BodyReadsBack 3 decodeDisconnect _ (.disconnect connectionId errorInfo) :=
      ⟨_, rfl, (readConnectionId_readsBack hid hm.1).bind ((u32le_readsBack hm.2).map (ReadsBack.pure _))⟩
    exact hbody.decodeBody fun _ _ => rfl
  | consentRequest m => exact (decodeConsentRequest_readsBack h hm).decodeBody fun _ _ => rfl
  | consentCancel connectionId =>
    simp only [encodeBody, bind_eq_bind, bind_eq_some_iff, asserts_eq_some] at h
    obtain ⟨_, hid, h⟩ := h
    cases h
    have hbody : BodyReadsBack 9 decodeConsentCancel _ (.consentCancel connectionId) :=
      ⟨_, rfl, (readConnectionId_readsBack hid hm).map (ReadsBack.pure _)⟩
    exact hbody.decodeBody fun _ _ => rfl
  | consentReply connectionId answer =>
    simp only [encodeBody, bind_eq_bind, bind_eq_some_iff, asserts_eq_some] at h
    obtain ⟨_, hid, h⟩ := h
    cases h
    have hanswer : (readEnum answerOfCode "unknown consent answer").ReadsBack (Writer.u8 (answerCode answer)) answer :=
      readEnum_readsBack _ (by cases answer <;> rfl) (by cases answer <;> decide)
    have hbody : BodyReadsBack 10 decodeConsentReply _ (.consentReply connectionId answer) :=
      ⟨_, rfl, (readConnectionId_readsBack hid hm).bind (hanswer.map (ReadsBack.pure _))⟩
    exact hbody.decodeBody fun _ _ => rfl
  | seatTakeover allowed =>
    cases h
    have hbody : BodyReadsBack 11 decodeSeatTakeover _ (.seatTakeover allowed) :=
      ⟨_, rfl, (readFlag_readsBack allowed).map (ReadsBack.pure _)⟩
    exact hbody.decodeBody fun _ _ => rfl
  | seatGreeter =>
    cases h
    have hbody : BodyReadsBack 12 (pure .seatGreeter) _ .seatGreeter := ⟨[], rfl, ReadsBack.pure _⟩
    exact hbody.decodeBody fun _ _ => rfl
  | sessionEnded reason detail =>
    simp only [encodeBody, bind_eq_bind, bind_eq_some_iff, writeString_eq_some] at h
    obtain ⟨_, ⟨hdetail, rfl⟩, h⟩ := h
    cases h
    have hbody : BodyReadsBack 4 decodeSessionEnded _ (.sessionEnded reason detail) :=
      ⟨_, rfl, (readReason_readsBack reason _).bind ((readString_readsBack hdetail (by decide)).map (ReadsBack.pure _))⟩
    exact hbody.decodeBody fun _ _ => rfl
  | stats m => exact (decodeStats_readsBack hm h).decodeBody fun _ _ => rfl
  | terminate reason =>
    cases h
    have hbody : BodyReadsBack 6 decodeTerminate _ (.terminate reason) :=
      ⟨_, rfl, (readReason_readsBack reason _).map (ReadsBack.pure _)⟩
    exact hbody.decodeBody fun _ _ => rfl

theorem encode_eq_some {m : Message} :
    encode m = some frame ↔
      ∃ body, encodeBody m = some body ∧ body.length ≤ maxMessageSize ∧ frame = Writer.u32le body.length ++ body := by
  simp only [encode, bind_eq_bind, bind_eq_some_iff, asserts_eq_some]
  constructor
  · rintro ⟨body, hbody, _, hle, h⟩
    cases h
    exact ⟨body, hbody, hle, rfl⟩
  · rintro ⟨body, hbody, hle, rfl⟩
    exact ⟨body, hbody, (), hle, rfl⟩

/-- `decode` reads the body, whose length is right. -/
theorem decode_frame (h0 : body.length ≠ 0) (hle : body.length ≤ maxMessageSize) :
    decode (Writer.u32le body.length ++ body) = (decodeFilling ⟨body, 4⟩).map (·.1) := by
  have hlt : body.length < 4294967296 := lt_of_le_of_lt hle (by decide)
  unfold decode
  have hlen : u32le { rest := Writer.u32le body.length ++ body } = .ok (body.length, ⟨body, 4⟩) :=
    u32le_append body.length body 0 hlt
  rw [hlen]
  change (if body.length ≠ body.length ∨ body.length = 0 ∨ body.length > maxMessageSize then _ else _) = _
  rw [if_neg (by omega)]
  rcases hd : decodeFilling ⟨body, 4⟩ with e | ⟨m, r⟩ <;> rfl

/-- **A well-formed message that can be written is read back.** -/
theorem decode_encode {m : Message} (h : encode m = some frame) (hm : m.WellFormed) :
    decode frame = .ok m := by
  obtain ⟨body, hbody, hle, rfl⟩ := encode_eq_some.mp h
  have hread := decodeBody_readsBack hbody hm [] 4
  rw [append_nil] at hread
  have h0 : body.length ≠ 0 := by
    intro h0
    rw [length_eq_zero_iff.mp h0] at hread
    cases hread
  rw [decode_frame h0 hle]
  unfold decodeFilling
  rw [Parse.bind_ok hread]
  rfl

/-! ### NewConnection -/

/-- What the assertions ask of a NewConnection. -/
structure NewConnection.Writable (m : NewConnection) : Prop where
  connectionId : m.connectionId ≠ 0
  cookie : m.negotiation.cookie.length ≤ maxShortString
  identity : ∀ i, m.negotiation.identity = some i → Identity.Fits i
  password : m.password.length ≤ maxPassword
  peer : m.peer.length ≤ maxShortString
  client : ∀ c, m.client = some c → c.monitors.length ≤ maxMonitors ∧ c.clientName.length ≤ maxShortString
  pendingInput : m.pendingInput.length ≤ maxPendingInput

theorem writeMonitors_length (l : List Monitor) : (l.flatMap writeMonitor).length = 17 * l.length := by
  induction l with
  | nil => rfl
  | cons m l ih =>
    rw [flatMap_cons, length_append, length_cons]
    have hm : (writeMonitor m).length = 17 := by
      simp [writeMonitor, writeI32, writeFlag_length]
    omega

theorem writeOptional_length_le {α : Type} {write : α → List UInt8} {n : ℕ} (o : Option α)
    (h : ∀ a, (write a).length ≤ n) : (writeOptional write o).length ≤ n + 1 := by
  cases o with
  | none => exact Nat.le_add_left 1 n
  | some a =>
    have ha := h a
    simp only [writeOptional, length_append, writeFlag_length]
    omega

theorem writeClient_some {c : ClientSummary} (hm : c.monitors.length ≤ maxMonitors)
    (hn : c.clientName.length ≤ maxShortString) : ∃ xs, writeClient c = some xs ∧ xs.length ≤ 600 := by
  refine ⟨_, by
    simp only [writeClient, bind_eq_bind, bind_eq_some_iff, asserts_eq_some, writeString_eq_some]
    exact ⟨(), hm, _, ⟨hn, rfl⟩, rfl⟩, ?_⟩
  have hscale := writeOptional_length_le c.desktopScaleFactor fun v => (Writer.u32le_length v).le
  simp only [length_append, Writer.u16le_length, Writer.u32le_length, Writer.u8_length, writeMonitors_length]
  unfold maxMonitors at hm
  unfold maxShortString at hn
  omega

theorem writePresent_some {client : Option ClientSummary}
    (h : ∀ c, client = some c → c.monitors.length ≤ maxMonitors ∧ c.clientName.length ≤ maxShortString) :
    ∃ xs, writePresent client = some xs ∧ xs.length ≤ 601 := by
  cases client with
  | none => exact ⟨_, rfl, by decide⟩
  | some c =>
    obtain ⟨xs, hxs, hle⟩ := writeClient_some (h c rfl).1 (h c rfl).2
    refine ⟨writeFlag true ++ xs, by rw [writePresent, hxs]; rfl, ?_⟩
    rw [length_append, writeFlag_length]
    omega

theorem identityBytes_length_le {identity : Option Identity} (h : ∀ i, identity = some i → Identity.Fits i) :
    (identityBytes identity).length ≤ 2052 := by
  cases identity with
  | none => exact Nat.zero_le _
  | some i =>
    obtain ⟨hu, hd⟩ := h i rfl
    unfold maxLongString at hu hd
    simp only [identityBytes, length_append, Writer.u16le_length]
    omega

theorem encodeNewConnection_writable (h : encodeNewConnection m = some body) :
    m.Writable := by
  simp only [encodeNewConnection, bind_eq_bind, bind_eq_some_iff, asserts_eq_some, writeString_eq_some] at h
  obtain ⟨_, hid, _, hinput, _, -, _, hn, _, ⟨hpassword, -⟩, _, ⟨hpeer, -⟩, _, hclient, -⟩ := h
  obtain ⟨hcookie, hidentity, -⟩ := writeNegotiation_eq_some.mp hn
  refine ⟨hid, hcookie, hidentity, hpassword, hpeer, fun c hc => ?_, hinput⟩
  rw [hc] at hclient
  simp only [writePresent, writeClient, bind_eq_bind, bind_eq_some_iff, asserts_eq_some, writeString_eq_some] at hclient
  obtain ⟨_, ⟨_, hmonitors, _, ⟨hname, -⟩, -⟩, -⟩ := hclient
  exact ⟨hmonitors, hname⟩

/-- **When a NewConnection can be written**: with every field in its limit the
message is below its own. -/
theorem encode_newConnection_isSome : (encode (.newConnection m)).isSome ↔ m.Writable := by
  rw [isSome_iff_exists]
  constructor
  · rintro ⟨frame, h⟩
    obtain ⟨body, hbody, -, -⟩ := encode_eq_some.mp h
    exact encodeNewConnection_writable hbody
  · intro h
    obtain ⟨client, hclient, hlen⟩ := writePresent_some h.client
    have hn := writeNegotiation_eq_some.mpr ⟨h.cookie, h.identity, rfl⟩
    refine ⟨_, encode_eq_some.mpr ⟨_, by
      simp only [encodeBody, encodeNewConnection, bind_eq_bind, bind_eq_some_iff, asserts_eq_some, writeString_eq_some]
      exact ⟨(), h.connectionId, (), h.pendingInput, (), h.password, _, hn, _, ⟨h.password, rfl⟩, _, ⟨h.peer, rfl⟩,
        _, hclient, rfl⟩, ?_, rfl⟩⟩
    have hidentity := identityBytes_length_le h.identity
    have hauto : (writeOptional writeCookie m.autoReconnect).length ≤ 20 + 1 :=
      writeOptional_length_le m.autoReconnect fun c => by simp [writeCookie]
    have hcookie := h.cookie
    have hpassword := h.password
    have hpeer := h.peer
    have hinput := h.pendingInput
    unfold maxShortString at hcookie hpeer
    unfold maxPassword at hpassword
    unfold maxPendingInput at hinput
    simp only [length_append, Writer.u8_length, Writer.u16le_length, Writer.u32le_length, Writer.u64le_length,
      writeFlag_length]
    unfold maxMessageSize
    omega

theorem decodeFrom_newConnection (h : encode (.newConnection m) = some frame)
    (hm : m.WellFormed) : decodeFrom .daemon frame true = .ok (.newConnection m) := by
  unfold decodeFrom
  rw [decode_encode h hm]
  rfl

theorem decodeBody_newConnection (payload : List UInt8) (o : ℕ) :
    decodeBody ⟨Writer.u8 2 ++ payload, o⟩ = decodeNewConnection ⟨payload, o + 1⟩ := rfl

/-- A NewConnection for an NLA user without a name is refused. -/
theorem decodeFrom_nameless (h : encode (.newConnection m) = some frame) (hid : m.connectionId < 2 ^ 64)
    (hreq : m.negotiation.requestedProtocols < 2 ^ 32) (hnla : isNla m.negotiation.selectedProtocol = true)
    (hi : m.negotiation.identity = some i) (hu : i.user = []) : ∃ e, decodeFrom .daemon frame true = .error e := by
  obtain ⟨body, hbody, hle, rfl⟩ := encode_eq_some.mp h
  simp only [encodeBody, encodeNewConnection, bind_eq_bind, bind_eq_some_iff, asserts_eq_some] at hbody
  obtain ⟨_, h0, _, -, _, -, negotiation, hn, _, -, _, -, _, -, hbody⟩ := hbody
  have hshape : ∃ after, body = Writer.u8 2 ++ (Writer.u64le m.connectionId ++ (negotiation ++ after)) := by
    cases hbody
    exact ⟨_, rfl⟩
  obtain ⟨after, rfl⟩ := hshape
  have hfails : decodeNewConnection.FailsOn (Writer.u64le m.connectionId ++ (negotiation ++ after)) :=
    (readConnectionId_readsBack h0 hid).fails ((readNegotiation_fails hn hreq hnla hi hu).bind.append after)
  have hbodyFails : decodeBody.FailsOn (Writer.u8 2 ++ (Writer.u64le m.connectionId ++ (negotiation ++ after))) := by
    intro rest o
    rw [append_assoc, decodeBody_newConnection]
    exact hfails rest (o + 1)
  have hfill : decodeFilling.FailsOn (Writer.u8 2 ++ (Writer.u64le m.connectionId ++ (negotiation ++ after))) :=
    hbodyFails.bind
  obtain ⟨e, he⟩ := hfill [] 4
  rw [append_nil] at he
  refine ⟨e, ?_⟩
  unfold decodeFrom
  rw [decode_frame (by simp) hle, he]
  rfl

/-! ### ConsentRequest -/

/-- What the assertions ask of a ConsentRequest. -/
structure Askable (m : ConsentRequest) : Prop where
  connectionId : m.connectionId ≠ 0
  timeout : minConsentSeconds ≤ m.timeoutSeconds ∧ m.timeoutSeconds ≤ maxConsentSeconds
  user : m.user.length ≤ maxLongString
  peer : m.peer.length ≤ maxShortString
  clientName : m.clientName.length ≤ maxShortString

theorem encode_consentRequest_isSome {m : ConsentRequest} : (encode (.consentRequest m)).isSome ↔ Askable m := by
  rw [isSome_iff_exists]
  constructor
  · rintro ⟨frame, h⟩
    obtain ⟨body, hbody, -, -⟩ := encode_eq_some.mp h
    simp only [encodeBody, encodeConsentRequest, bind_eq_bind, bind_eq_some_iff, asserts_eq_some,
      writeString_eq_some] at hbody
    obtain ⟨_, hid, _, htimeout, _, ⟨huser, -⟩, _, ⟨hpeer, -⟩, _, ⟨hname, -⟩, -⟩ := hbody
    exact ⟨hid, htimeout, huser, hpeer, hname⟩
  · intro h
    refine ⟨_, encode_eq_some.mpr ⟨_, by
      simp only [encodeBody, encodeConsentRequest, bind_eq_bind, bind_eq_some_iff, asserts_eq_some, writeString_eq_some]
      exact ⟨(), h.connectionId, (), h.timeout, _, ⟨h.user, rfl⟩, _, ⟨h.peer, rfl⟩, _, ⟨h.clientName, rfl⟩, rfl⟩,
      ?_, rfl⟩⟩
    have huser := h.user
    have hpeer := h.peer
    have hname := h.clientName
    unfold maxLongString at huser
    unfold maxShortString at hpeer hname
    simp only [length_append, Writer.u8_length, Writer.u16le_length, Writer.u32le_length, Writer.u64le_length,
      writeFlag_length]
    unfold maxMessageSize
    omega

end Wire
end Broker
end Server
end Farland
