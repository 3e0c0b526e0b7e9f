/-
# One encoding for each message of the broker

`decode` is also a right inverse of `encode`: a frame that it accepts is the one
that `encode` writes for the message, but for one byte of Settings, the H.264
backend that stands there even where none is chosen. On top of it are the frame
length that `message_length` finds and the order that `AgentLink::receive`
keeps.

Key theorems: `encode_decode`, `Received.language`, **`broker_codec`**.
-/
import Farland.Server.BrokerRoundTrip

namespace Farland
namespace Server
namespace Broker
namespace Wire

open Reader Parse Privsep List Option

/-! ### What a field was read from -/

theorem readString_took (max : ℕ) :
    (readString max).Took fun t xs => t.length ≤ max ∧ xs = Writer.u16le t.length ++ t := by
  refine .at_ fun _ => u16le_inverse.bind ?_
  intro size _
  refine .ite (fun _ => .fail _ _ _) fun hle => (bytes_took size).imp ?_
  rintro t _ ⟨rfl, rfl⟩
  exact ⟨not_lt.mp hle, rfl⟩

theorem readFlag_took : readFlag.Took fun b xs => xs = writeFlag b := by
  refine .at_ fun _ => u8_inverse.bind ?_
  intro value _
  refine .ite (fun _ => .fail _ _ _) fun hle => .pure ?_
  interval_cases value <;> rfl

/-- The number of a value is the one that it was read from. -/
theorem readEnum_took {α : Type} {ofCode : ℕ → Option α} (code : α → ℕ) (what : String)
    (h : ∀ value a, ofCode value = some a → value = code a) :
    (readEnum ofCode what).Took fun a xs => xs = Writer.u8 (code a) := by
  refine .at_ fun _ => u8_inverse.bind ?_
  intro value _
  cases hcode : ofCode value with
  | none => exact .fail _ _ _
  | some a =>
    refine .pure ?_
    rw [append_nil, h value a hcode]

theorem readArray_took (n : ℕ) : (readArray n).Took fun v xs => xs = v.toList := by
  refine (bytes_took n).bind ?_
  rintro _ raw ⟨hlen, rfl⟩
  refine .pure ?_
  change raw ++ [] = (raw ++ Writer.zeros n).take n
  rw [append_nil, take_append_of_le_length hlen.ge, take_of_length_le hlen.le]

theorem readI32_took : readI32.Took fun v xs => IsI32 v ∧ xs = writeI32 v := by
  refine u32le_inverse.bind ?_
  intro value hlt
  refine .pure ⟨toSigned_mem hlt, ?_⟩
  rw [append_nil, writeI32, toUnsigned_toSigned hlt]

theorem readOptional_took {α : Type} {read : Parse α} {write : α → List UInt8} {Valid : α → Prop}
    (h : read.Took fun a xs => Valid a ∧ xs = write a) :
    (readOptional read).Took fun o xs => (∀ a, o = some a → Valid a) ∧ xs = writeOptional write o := by
  refine readFlag_took.bind ?_
  rintro present _ rfl
  cases present with
  | false =>
    refine .pure ⟨fun a ha => ?_, rfl⟩
    cases ha
  | true =>
    refine h.bind ?_
    rintro a _ ⟨ha, rfl⟩
    refine .pure ⟨fun a' ha' => ?_, by simp [writeOptional]⟩
    cases ha'
    exact ha

theorem readConnectionId_took : readConnectionId.Took fun id xs => (id ≠ 0 ∧ id < 2 ^ 64) ∧ xs = Writer.u64le id := by
  refine .at_ fun _ => u64le_inverse.bind ?_
  intro id hlt
  exact .ite (fun _ => .fail _ _ _) fun h0 => .pure ⟨⟨h0, hlt⟩, append_nil _⟩

theorem readMonitor_took : readMonitor.Took fun m xs => m.WellFormed ∧ xs = writeMonitor m := by
  refine .at_ fun _ => readI32_took.bind ?_
  rintro left _ ⟨hleft, rfl⟩
  refine readI32_took.bind ?_
  rintro top _ ⟨htop, rfl⟩
  refine readI32_took.bind ?_
  rintro right _ ⟨hright, rfl⟩
  refine readI32_took.bind ?_
  rintro bottom _ ⟨hbottom, rfl⟩
  refine readFlag_took.bind ?_
  rintro primary _ rfl
  refine .ite (fun _ => .fail _ _ _) fun hup => ?_
  obtain ⟨hlr, htb⟩ := not_or.mp hup
  exact .pure ⟨⟨hleft, htop, hright, hbottom, not_lt.mp hlr, not_lt.mp htb⟩, by simp [writeMonitor]⟩

theorem readMonitor_inverse : Inverse readMonitor writeMonitor Monitor.WellFormed where
  readsBack := readMonitor_readsBack
  took := readMonitor_took

theorem readCookie_took :
    readCookie.Took fun c xs => c.logonId < 2 ^ 32 ∧ xs = writeCookie c := by
  refine u32le_inverse.bind ?_
  intro logonId hlt
  refine (readArray_took 16).bind ?_
  rintro verifier _ rfl
  exact .pure ⟨hlt, by simp [writeCookie]⟩

theorem readPendingInput_took :
    readPendingInput.Took fun input xs => input.length ≤ maxPendingInput ∧ xs = Writer.u32le input.length ++ input := by
  refine .at_ fun _ => u32le_inverse.bind ?_
  intro size _
  refine .ite (fun _ => .fail _ _ _) fun hle => (bytes_took size).imp ?_
  rintro input _ ⟨rfl, rfl⟩
  exact ⟨not_lt.mp hle, rfl⟩

theorem readIdentity_took (o : ℕ) : (readIdentity o).Took fun i xs =>
    Identity.Fits i ∧ i.user ≠ [] ∧ xs = identityBytes (some i) := by
  refine (readString_took maxLongString).bind ?_
  rintro user _ ⟨huser, rfl⟩
  refine (readString_took maxLongString).bind ?_
  rintro domain _ ⟨hdomain, rfl⟩
  exact .ite (fun _ => .fail _ _ _) fun hne => .pure ⟨⟨huser, hdomain⟩, hne, by simp [identityBytes]⟩

theorem readNegotiation_took : readNegotiation.Took fun n xs => writeNegotiation n = some xs ∧ Negotiable n := by
  refine (readString_took maxShortString).bind ?_
  rintro cookie _ ⟨hcookie, rfl⟩
  refine u32le_inverse.bind ?_
  intro requested hrequested
  refine .at_ fun _ => u32le_inverse.bind ?_
  intro selected _
  refine .ite (fun _ => .fail _ _ _) fun hknown => .at_ fun o => readFlag_took.bind ?_
  rw [Bool.not_eq_false] at hknown
  rintro present _ rfl
  refine .ite (fun _ => .fail _ _ _) fun hnla => ?_
  rw [not_not] at hnla
  cases present with
  | false =>
    refine .pure ⟨writeNegotiation_eq_some.mpr ⟨hcookie, fun i hi => ?_, ?_⟩, hrequested, hknown, hnla, fun i hi => ?_⟩
    · cases hi
    · simp [identityBytes]
    · cases hi
  | true =>
    refine (readIdentity_took o).bind ?_
    rintro identity _ ⟨hfits, hne, rfl⟩
    refine .pure ⟨writeNegotiation_eq_some.mpr ⟨hcookie, fun i hi => ?_, ?_⟩, hrequested, hknown, hnla, fun i hi => ?_⟩
    · cases hi
      exact hfits
    · simp
    · cases hi
      exact hne

theorem writeClient_eq_some {c : ClientSummary} (hmonitors : c.monitors.length ≤ maxMonitors)
    (hname : c.clientName.length ≤ maxShortString) : writeClient c = some (Writer.u16le c.desktopWidth ++
      (Writer.u16le c.desktopHeight ++ (Writer.u32le c.keyboardLayout ++ (Writer.u32le c.keyboardType ++
      (Writer.u32le c.keyboardSubtype ++ (Writer.u32le c.clientBuild ++ (Writer.u16le c.clientName.length ++
      c.clientName ++ (writeOptional Writer.u32le c.desktopScaleFactor ++ (Writer.u8 c.monitors.length ++
      c.monitors.flatMap writeMonitor))))))))) := by
  simp only [writeClient, bind_eq_bind, bind_eq_some_iff, asserts_eq_some, writeString_eq_some]
  exact ⟨(), hmonitors, _, ⟨hname, rfl⟩, rfl⟩

theorem readClient_took : readClient.Took fun c xs => writeClient c = some xs ∧ c.WellFormed := by
  refine .at_ fun _ => u16le_inverse.bind ?_
  intro width hwidth
  refine u16le_inverse.bind ?_
  intro height hheight
  refine .ite (fun _ => .fail _ _ _) fun hsize => u32le_inverse.took.bind ?_
  obtain ⟨hw0, hh0⟩ := not_or.mp hsize
  rintro layout _ ⟨hlayout, rfl⟩
  refine u32le_inverse.bind ?_
  intro type htype
  refine u32le_inverse.bind ?_
  intro subtype hsubtype
  refine u32le_inverse.bind ?_
  intro build hbuild
  refine (readString_took maxShortString).bind ?_
  rintro name _ ⟨hname, rfl⟩
  refine (readOptional_took u32le_inverse.took).bind ?_
  rintro scale _ ⟨hscale, rfl⟩
  refine .at_ fun _ => u8_inverse.bind ?_
  intro count _
  refine .ite (fun _ => .fail _ _ _) fun hcount => (readMany_took readMonitor_inverse count).bind ?_
  rintro monitors _ ⟨rfl, hmonitors, rfl⟩
  refine .pure ⟨?_, ⟨hw0, hwidth⟩, ⟨hh0, hheight⟩, hlayout, htype, hsubtype, hbuild, hscale, hmonitors⟩
  rw [writeClient_eq_some (not_lt.mp hcount) hname]
  simp only [append_nil]

theorem readPresent_took : (readOptional readClient).Took fun client xs =>
    writePresent client = some xs ∧ ∀ c, client = some c → c.WellFormed := by
  refine readFlag_took.bind ?_
  rintro present _ rfl
  cases present with
  | false =>
    refine .pure ⟨rfl, fun c hc => ?_⟩
    cases hc
  | true =>
    refine readClient_took.bind ?_
    rintro client xs ⟨hxs, hclient⟩
    refine .pure ⟨?_, fun c hc => ?_⟩
    · rw [writePresent, hxs, append_nil]
      rfl
    · cases hc
      exact hclient

/-! ### What a message was read from -/

structure Settings.InLimits (m : Settings) : Prop extends m.WellFormed where
  rate : minFramesPerSecond ≤ m.framesPerSecond ∧ m.framesPerSecond ≤ maxFramesPerSecond
  activation : minActivationSeconds ≤ m.activationSeconds ∧ m.activationSeconds ≤ maxActivationSeconds
  library : m.openh264Library.length ≤ maxSettingsPath
  node : m.renderNode.length ≤ maxSettingsPath

/-- The limits that the decoder checks. -/
def Message.InLimits : Message → Prop
  | .hello version _ => version < 2 ^ 16
  | .settings m => m.InLimits
  | .newConnection m => m.Writable ∧ m.WellFormed
  | .disconnect connectionId errorInfo => (connectionId ≠ 0 ∧ connectionId < 2 ^ 64) ∧ errorInfo < 2 ^ 32
  | .consentRequest m => Askable m ∧ m.connectionId < 2 ^ 64
  | .consentCancel connectionId | .consentReply connectionId _ => connectionId ≠ 0 ∧ connectionId < 2 ^ 64
  | .sessionEnded _ detail => detail.length ≤ maxLongString
  | .stats m => m.WellFormed
  | .seatTakeover _ | .seatGreeter | .terminate _ => True

/-- Behind its type, a message was read from what is written of it. -/
def BodyTook (type : ℕ) (read : Parse Message) : Prop :=
  read.Took fun m payload => m.InLimits ∧ encodeBody m = some (Writer.u8 type ++ payload)

theorem decodeNewConnection_took : BodyTook 2 decodeNewConnection := by
  refine readConnectionId_took.bind ?_
  rintro id _ ⟨⟨h0, hid⟩, rfl⟩
  refine readNegotiation_took.bind ?_
  rintro negotiation written ⟨hwritten, hnegotiable⟩
  refine (readString_took maxPassword).bind ?_
  rintro password _ ⟨hpassword, rfl⟩
  refine (readString_took maxShortString).bind ?_
  rintro peer _ ⟨hpeer, rfl⟩
  refine u32le_inverse.bind ?_
  intro elapsed helapsed
  refine readPresent_took.bind ?_
  rintro client present ⟨hpresent, hclient⟩
  refine (readOptional_took readCookie_took).bind ?_
  rintro autoReconnect _ ⟨hcookie, rfl⟩
  refine readPendingInput_took.bind ?_
  rintro input _ ⟨hinput, rfl⟩
  have hbody : encodeNewConnection ⟨id, negotiation, password, peer, elapsed, client, autoReconnect, input⟩ = some (Writer.u8 2 ++ (Writer.u64le id ++ (written ++
        ((Writer.u16le password.length ++ password) ++ ((Writer.u16le peer.length ++ peer) ++ (Writer.u32le elapsed ++
        (present ++ (writeOptional writeCookie autoReconnect ++ (Writer.u32le input.length ++ input))))))))) := by
    simp only [encodeNewConnection, bind_eq_bind, bind_eq_some_iff, asserts_eq_some, writeString_eq_some]
    exact ⟨(), h0, (), hinput, (), hpassword, _, hwritten, _, ⟨hpassword, rfl⟩, _, ⟨hpeer, rfl⟩, _, hpresent, rfl⟩
  refine .pure ⟨⟨?_, hid, hnegotiable, helapsed, hclient, hcookie⟩, ?_⟩
  · exact encodeNewConnection_writable hbody
  · rw [encodeBody, hbody]
    simp only [append_nil]

theorem decodeConsentRequest_took : BodyTook 8 decodeConsentRequest := by
  refine readConnectionId_took.bind ?_
  rintro id _ ⟨⟨h0, hid⟩, rfl⟩
  refine (readString_took maxLongString).bind ?_
  rintro user _ ⟨huser, rfl⟩
  refine (readString_took maxShortString).bind ?_
  rintro peer _ ⟨hpeer, rfl⟩
  refine (readString_took maxShortString).bind ?_
  rintro name _ ⟨hname, rfl⟩
  refine .at_ fun _ => u32le_inverse.bind ?_
  intro timeout _
  refine .ite (fun _ => .fail _ _ _) fun htimeout => readFlag_took.bind ?_
  obtain ⟨hmin, hmax⟩ := not_or.mp htimeout
  rintro allow _ rfl
  refine readFlag_took.bind ?_
  rintro seat _ rfl
  refine .pure ⟨⟨⟨h0, ⟨not_lt.mp hmin, not_lt.mp hmax⟩, huser, hpeer, hname⟩, hid⟩, ?_⟩
  simp only [encodeBody, encodeConsentRequest, bind_eq_bind, bind_eq_some_iff, asserts_eq_some,
    writeString_eq_some]
  refine ⟨(), h0, (), ⟨not_lt.mp hmin, not_lt.mp hmax⟩, _, ⟨huser, rfl⟩, _, ⟨hpeer, rfl⟩, _, ⟨hname, rfl⟩, ?_⟩
  simp only [append_nil, Option.pure_def]

theorem decodeStats_took : BodyTook 5 decodeStats := by
  refine u64le_inverse.bind ?_
  intro id hid
  refine u32le_inverse.bind ?_
  intro session hsession
  refine u32le_inverse.bind ?_
  intro idle hidle
  refine u16le_inverse.bind ?_
  intro width hwidth
  refine u16le_inverse.bind ?_
  intro height hheight
  refine u64le_inverse.bind ?_
  intro frames hframes
  refine u64le_inverse.bind ?_
  intro sent hsent
  refine u64le_inverse.bind ?_
  intro received hreceived
  refine u32le_inverse.bind ?_
  intro rtt hrtt
  refine u32le_inverse.bind ?_
  intro bandwidth hbandwidth
  refine .pure ⟨⟨hid, hsession, hidle, hwidth, hheight, hframes, hsent, hreceived, hrtt, hbandwidth⟩, ?_⟩
  simp only [encodeBody, append_nil, Option.pure_def]

theorem reason_of_code : ∀ value reason, reasonOfCode value = some reason → value = reasonCode reason := by
  intro value reason h
  unfold reasonOfCode at h
  split at h <;> cases h <;> rfl

theorem answer_of_code : ∀ value answer, answerOfCode value = some answer → value = answerCode answer := by
  intro value answer h
  unfold answerOfCode at h
  split at h <;> cases h <;> rfl

/-! ### The backend of Settings -/

/-- Behind the type, with `backend` where the backend's number stands. -/
def settingsBytes (m : Settings) (backend : ℕ) : List UInt8 :=
  Writer.u16le m.framesPerSecond ++ (Writer.u8 m.bitmapCodec.code ++ (Writer.u8 m.gfxCodec.code ++
    (writeFlag m.h264Backend.isSome ++ (Writer.u8 backend ++ (Writer.u16le m.openh264Library.length ++
    (m.openh264Library ++ (Writer.u16le m.renderNode.length ++ (m.renderNode ++
    (m.flags.flatMap writeFlag ++ (Writer.u8 m.autodetect.code ++ (Writer.u32le m.activationSeconds ++
    (Writer.u32le m.h264BitrateKbps ++ (Writer.u32le m.h264MinBitrateKbps ++
    Writer.u32le m.h264MaxBitrateKbps)))))))))))))

def Settings.backendCode (m : Settings) : ℕ := (m.h264Backend.map (·.code)).getD 0

theorem encodeSettings_eq {m : Settings} (h : m.InLimits) :
    encodeSettings m = some (Writer.u8 7 ++ settingsBytes m m.backendCode) := by
  simp only [encodeSettings, bind_eq_bind, bind_eq_some_iff, asserts_eq_some, writeString_eq_some]
  refine ⟨(), h.rate, (), h.activation, _, ⟨h.library, rfl⟩, _, ⟨h.node, rfl⟩, ?_⟩
  simp only [settingsBytes, Settings.backendCode, append_assoc, Option.pure_def]

theorem exists_flags : ∀ {l : List Bool}, l.length = 9 → ∃ m : Settings, m.flags = l
  | [a, b, c, d, e, f, g, h, i], _ =>
    ⟨{ zeroCopy := a, clearcodec := b, refine := c, videoRegions := d, losslessStill := e, audio := f, microphone := g
       camera := h, clipboard := i }, rfl⟩

theorem readFlag_inverse : Inverse readFlag writeFlag fun _ => True where
  readsBack := fun {b} _ => readFlag_readsBack b
  took := readFlag_took.imp fun _ _ h => ⟨trivial, h⟩

theorem decodeBitrates_took (base : Settings) : (decodeBitrates base).Took fun m xs =>
    ∃ rate min max, m = .settings { base with h264BitrateKbps := rate, h264MinBitrateKbps := min
                                              h264MaxBitrateKbps := max } ∧
      (rate ≤ maxBitrateKbps ∧ min ≤ maxBitrateKbps ∧ max ≤ maxBitrateKbps) ∧
        xs = Writer.u32le rate ++ (Writer.u32le min ++ Writer.u32le max) := by
  refine .at_ fun _ => u32le_inverse.bind ?_
  intro rate _
  refine u32le_inverse.bind ?_
  intro min _
  refine u32le_inverse.bind ?_
  intro max _
  refine .ite (fun _ => .fail _ _ _) fun hle => .pure ⟨rate, min, max, rfl, by omega, ?_⟩
  rw [append_nil]

theorem decodeSettings_took : decodeSettings.Took fun message xs =>
    ∃ m, message = .settings m ∧ m.InLimits ∧ ∃ backend, xs = settingsBytes m backend ∧
      (m.h264Backend.isSome = true → backend = m.backendCode) := by
  refine .at_ fun _ => u16le_inverse.bind ?_
  intro rate _
  refine .ite (fun _ => .fail _ _ _) fun hrate => ?_
  obtain ⟨hmin, hmax⟩ := not_or.mp hrate
  refine (readEnum_took BitmapCodec.code _ ?_).bind ?_
  · intro value codec h
    unfold BitmapCodec.ofCode at h
    split at h <;> cases h <;> rfl
  rintro bitmap _ rfl
  refine (readEnum_took TileCodec.code _ ?_).bind ?_
  · intro value codec h
    unfold TileCodec.ofCode at h
    split at h <;> cases h <;> rfl
  rintro gfx _ rfl
  refine readFlag_took.bind ?_
  rintro present _ rfl
  refine (readEnum_took Backend.code _ ?_).bind ?_
  · intro value backend h
    unfold Backend.ofCode at h
    split at h <;> cases h <;> rfl
  rintro backend _ rfl
  refine (readString_took maxSettingsPath).bind ?_
  rintro library _ ⟨hlibrary, rfl⟩
  refine (readString_took maxSettingsPath).bind ?_
  rintro node _ ⟨hnode, rfl⟩
  refine (readMany_took readFlag_inverse 9).bind ?_
  rintro flags _ ⟨hflags, -, rfl⟩
  obtain ⟨m, rfl⟩ := exists_flags hflags
  refine (readEnum_took AutoDetectMode.code _ ?_).bind ?_
  · intro value mode h
    unfold AutoDetectMode.ofCode at h
    split at h <;> cases h <;> rfl
  rintro mode _ rfl
  refine .at_ fun _ => u32le_inverse.bind ?_
  intro activation _
  refine .ite (fun _ => .fail _ _ _) fun hactivation => (decodeBitrates_took _).imp ?_
  obtain ⟨hamin, hamax⟩ := not_or.mp hactivation
  rintro message _ ⟨low, min, max, rfl, hrates, rfl⟩
  rw [Settings.withFlags_flags]
  refine ⟨_, rfl, ⟨⟨hrates.1, hrates.2.1, hrates.2.2⟩, ⟨not_lt.mp hmin, not_lt.mp hmax⟩,
    ⟨not_lt.mp hamin, not_lt.mp hamax⟩, hlibrary, hnode⟩, backend.code, ?_, ?_⟩
  · cases present <;> simp [settingsBytes, Settings.flags]
  · cases present
    · intro h
      cases h
    · exact fun _ => rfl

/-- The number of a backend is taken to be 0 where the flag before it says that there is none. -/
def withoutBackend (body : List UInt8) : List UInt8 :=
  if body[0]? = some 7 ∧ body[5]? = some 0 then body.set 6 0 else body

theorem withoutBackend_settings {m : Settings} {backend : ℕ}
    (h : m.h264Backend.isSome = true → backend = m.backendCode) :
    withoutBackend (Writer.u8 7 ++ settingsBytes m backend) = Writer.u8 7 ++ settingsBytes m m.backendCode := by
  cases hb : m.h264Backend with
  | none =>
    have hcode : m.backendCode = 0 := by rw [Settings.backendCode, hb]; rfl
    rw [withoutBackend, if_pos, hcode]
    · unfold settingsBytes
      rfl
    · rw [settingsBytes, hb]
      exact ⟨rfl, rfl⟩
  | some b =>
    rw [h (by rw [hb]; rfl), withoutBackend, if_neg]
    rintro ⟨-, hzero⟩
    rw [settingsBytes, hb] at hzero
    cases hzero

/-! ### Frames -/

theorem decodeBody_took : decodeBody.Took fun m body => m.InLimits ∧ encodeBody m = some (withoutBackend body) := by
  have hplain : ∀ {type : ℕ} {read : Parse Message}, BodyTook type read →
      (∀ payload, withoutBackend (Writer.u8 type ++ payload) = Writer.u8 type ++ payload) →
        read.Took fun m payload => m.InLimits ∧ encodeBody m = some (withoutBackend (Writer.u8 type ++ payload)) := by
    intro type read hread hsame
    refine hread.imp fun m payload h => ?_
    rwa [hsame]
  have hother : ∀ {type : ℕ}, UInt8.ofNat type ≠ 7 → ∀ payload,
      withoutBackend (Writer.u8 type ++ payload) = Writer.u8 type ++ payload := by
    intro type htype payload
    refine if_neg fun h => htype ?_
    exact Option.some.inj h.1
  refine .at_ fun _ => u8_inverse.bind ?_
  intro type _
  split
  · refine hplain (u16le_inverse.took.bind ?_) (hother (by decide))
    rintro version _ ⟨hversion, rfl⟩
    refine (readArray_took 32).bind ?_
    rintro token _ rfl
    refine .pure ⟨hversion, ?_⟩
    simp only [encodeBody, append_nil, Option.pure_def]
  · exact hplain decodeNewConnection_took (hother (by decide))
  · refine hplain (readConnectionId_took.bind ?_) (hother (by decide))
    rintro id _ ⟨hid, rfl⟩
    refine u32le_inverse.bind ?_
    intro info hinfo
    refine .pure ⟨⟨hid, hinfo⟩, ?_⟩
    simp [encodeBody, asserts, hid.1]
  · refine hplain ((readEnum_took reasonCode _ reason_of_code).bind ?_) (hother (by decide))
    rintro reason _ rfl
    refine (readString_took maxLongString).bind ?_
    rintro detail _ ⟨hdetail, rfl⟩
    refine .pure ⟨hdetail, ?_⟩
    simp [encodeBody, writeString, asserts, hdetail]
  · exact hplain decodeStats_took (hother (by decide))
  · refine hplain ((readEnum_took reasonCode _ reason_of_code).bind ?_) (hother (by decide))
    rintro reason _ rfl
    exact .pure ⟨trivial, by simp [encodeBody]⟩
  · refine decodeSettings_took.imp ?_
    rintro message _ ⟨m, rfl, hm, backend, rfl, hbackend⟩
    rw [withoutBackend_settings hbackend]
    exact ⟨hm, encodeSettings_eq hm⟩
  · exact hplain decodeConsentRequest_took (hother (by decide))
  · refine hplain (readConnectionId_took.bind ?_) (hother (by decide))
    rintro id _ ⟨hid, rfl⟩
    refine .pure ⟨hid, ?_⟩
    simp [encodeBody, asserts, hid.1]
  · refine hplain (readConnectionId_took.bind ?_) (hother (by decide))
    rintro id _ ⟨hid, rfl⟩
    refine (readEnum_took answerCode _ answer_of_code).bind ?_
    rintro answer _ rfl
    refine .pure ⟨hid, ?_⟩
    simp [encodeBody, asserts, hid.1]
  · refine hplain (readFlag_took.bind ?_) (hother (by decide))
    rintro allowed _ rfl
    exact .pure ⟨trivial, by simp [encodeBody]⟩
  · refine .pure ⟨trivial, ?_⟩
    rfl
  · exact .fail _ _ _

theorem decodeFilling_whole :
    decodeFilling.Whole fun m body => m.InLimits ∧ encodeBody m = some (withoutBackend body) := by
  refine decodeBody_took.whole fun m body h => Whole.expectEnd ?_
  rwa [append_nil]

theorem withoutBackend_length (body : List UInt8) : (withoutBackend body).length = body.length := by
  unfold withoutBackend
  split_ifs
  · exact length_set
  · rfl

/-- A frame is its own canonical form but for the backend's number. -/
def canonical (frame : List UInt8) : List UInt8 :=
  frame.take lengthPrefix ++ withoutBackend (frame.drop lengthPrefix)

variable {frame : List UInt8} {m : Message}

theorem encode_decode (h : decode frame = .ok m) : m.InLimits ∧ encode m = some (canonical frame) := by
  unfold decode at h
  rcases hu : u32le { rest := frame } with e | ⟨length, outer⟩
  · rw [hu] at h
    cases h
  · rw [hu] at h
    obtain ⟨xs, hxs, -, hlength⟩ := u32le_inverse.took _ _ _ hu
    change (if length ≠ outer.remaining ∨ length = 0 ∨ length > maxMessageSize then _ else _) = _ at h
    split_ifs at h with hbad
    · cases h
    · obtain ⟨heq, hrange⟩ := not_or.mp hbad
      rw [not_not] at heq
      rcases hd : decodeFilling outer with e | ⟨m', r⟩
      · rw [hd] at h
        cases h
      · rw [hd] at h
        cases h
        obtain ⟨hlimits, hbody⟩ := decodeFilling_whole _ _ _ hd
        have hsplit : frame = Writer.u32le length ++ outer.rest := by rw [← hlength]; exact hxs
        have htake : frame.take lengthPrefix = Writer.u32le length := by
          rw [hsplit]
          exact take_left' (Writer.u32le_length _)
        have hdrop : frame.drop lengthPrefix = outer.rest := by
          rw [hsplit]
          exact drop_left' (Writer.u32le_length _)
        have hsize : outer.rest.length = length := heq.symm
        refine ⟨hlimits, encode_eq_some.mpr ⟨_, hbody, ?_, ?_⟩⟩
        · rw [withoutBackend_length]
          omega
        · rw [canonical, htake, hdrop, withoutBackend_length, hsize]

/-- Every message in the limits can be written. -/
theorem Message.InLimits.encodes (h : m.InLimits) : m.WellFormed ∧ ∃ frame, encode m = some frame := by
  have hsmall : ∀ body, encodeBody m = some body → body.length ≤ 5000 → ∃ frame, encode m = some frame :=
    fun _ hbody hle => ⟨_, encode_eq_some.mpr ⟨_, hbody, hle.trans (by decide), rfl⟩⟩
  cases m with
  | hello version token | stats m => exact ⟨h, hsmall _ rfl (by simp)⟩
  | settings m =>
    refine ⟨h.toWellFormed, hsmall _ (encodeSettings_eq h) ?_⟩
    have hlibrary := h.library
    have hnode := h.node
    have hflags : (m.flags.flatMap writeFlag).length = 9 := rfl
    unfold maxSettingsPath at hlibrary hnode
    simp only [settingsBytes, length_append, Writer.u8_length, Writer.u16le_length, Writer.u32le_length,
      writeFlag_length, hflags]
    omega
  | newConnection m => exact ⟨h.2, isSome_iff_exists.mp (encode_newConnection_isSome.mpr h.1)⟩
  | disconnect id info =>
    refine ⟨⟨h.1.2, h.2⟩, hsmall (Writer.u8 3 ++ (Writer.u64le id ++ Writer.u32le info)) ?_ (by simp)⟩
    simp [encodeBody, asserts, h.1.1]
  | consentRequest m => exact ⟨h.2, isSome_iff_exists.mp (encode_consentRequest_isSome.mpr h.1)⟩
  | consentCancel id =>
    refine ⟨h.2, hsmall (Writer.u8 9 ++ Writer.u64le id) ?_ (by simp)⟩
    simp [encodeBody, asserts, h.1]
  | consentReply id answer =>
    refine ⟨h.2, hsmall (Writer.u8 10 ++ (Writer.u64le id ++ Writer.u8 (answerCode answer))) ?_ (by simp)⟩
    simp [encodeBody, asserts, h.1]
  | seatTakeover allowed => exact ⟨trivial, hsmall _ rfl (by simp [writeFlag_length])⟩
  | seatGreeter | terminate reason => exact ⟨trivial, hsmall _ rfl (by simp)⟩
  | sessionEnded reason detail =>
    refine ⟨trivial, hsmall (Writer.u8 4 ++ (Writer.u8 (reasonCode reason) ++
      (Writer.u16le detail.length ++ detail))) ?_ ?_⟩
    · have hdetail : detail.length ≤ maxLongString := h
      simp [encodeBody, writeString, asserts, hdetail]
    · have hdetail : detail.length ≤ 1024 := h
      simp only [length_append, Writer.u8_length, Writer.u16le_length]
      omega

/-- `message_length`: how long the frame in front is, once all of it is there. -/
def messageLength (buffered : List UInt8) : Result (Option ℕ) :=
  if buffered.length < lengthPrefix then .ok none
  else do
    let (length, _) ← u32le { rest := buffered }
    if length = 0 ∨ length > maxMessageSize then fail .limitExceeded "broker message size out of range" 0
    else if buffered.length < lengthPrefix + length then .ok none
    else .ok (some (lengthPrefix + length))

theorem messageLength_encode (h : encode m = some frame) (hm : m.WellFormed) (rest : List UInt8) :
    messageLength (frame ++ rest) = .ok (some frame.length) := by
  obtain ⟨body, hbody, hle, rfl⟩ := encode_eq_some.mp h
  have h0 : body.length ≠ 0 := by
    intro h0
    have hread := decodeBody_readsBack hbody hm [] 4
    rw [length_eq_zero_iff.mp h0] at hread
    cases hread
  have hlt : body.length < 2 ^ 32 := lt_of_le_of_lt hle (by decide)
  unfold messageLength
  rw [append_assoc, u32le_readsBack hlt]
  change (if body.length = 0 ∨ body.length > maxMessageSize then _ else _) = _
  rw [if_neg (by omega)]
  simp [lengthPrefix]

/-! ### The two sides -/

theorem decodeFrom_ok {sender : Sender} {withFd : Bool} :
    decodeFrom sender frame withFd = .ok m ↔ decode frame = .ok m ∧ maySend sender m = true ∧ withFd = carriesFd m := by
  unfold decodeFrom
  rcases hd : decode frame with e | m'
  · exact ⟨fun h => (by cases h), fun h => (by cases h.1)⟩
  · change (if maySend sender m' = false then _ else if carriesFd m' ≠ withFd then _ else _) = _ ↔ _
    split_ifs with hsend hfd
    · refine ⟨fun h => (by cases h), fun ⟨heq, hmay, _⟩ => ?_⟩
      cases heq
      rw [hsend] at hmay
      cases hmay
    · refine ⟨fun h => (by cases h), fun ⟨heq, _, hcarries⟩ => ?_⟩
      cases heq
      exact absurd hcarries.symm hfd
    · constructor
      · intro h
        cases h
        exact ⟨rfl, by simpa using hsend, (not_not.mp hfd).symm⟩
      · rintro ⟨heq, -, -⟩
        cases heq
        rfl

/-! ### The order of an agent's messages -/

/-- `tokens_equal`, which looks at every byte. -/
def tokensEqual (a b : Token) : Bool :=
  (a.toList.zip b.toList).foldl (fun difference p => difference ||| (p.1 ^^^ p.2).toNat) 0 == 0

theorem foldl_or_eq_zero (l : List (UInt8 × UInt8)) : ∀ difference : ℕ,
    l.foldl (fun difference p => difference ||| (p.1 ^^^ p.2).toNat) difference = 0 ↔
      difference = 0 ∧ ∀ p ∈ l, p.1 = p.2 := by
  induction l with
  | nil => simp
  | cons p l ih =>
    intro difference
    have hxor : (p.1 ^^^ p.2).toNat = 0 ↔ p.1 = p.2 := by
      rw [← UInt8.toNat_zero, UInt8.toNat_inj, UInt8.xor_eq_zero_iff]
    rw [foldl_cons, ih, Nat.or_eq_zero_iff, hxor, forall_mem_cons, and_assoc]

theorem forall_zip_eq : ∀ {xs ys : List UInt8}, xs.length = ys.length → ((∀ p ∈ xs.zip ys, p.1 = p.2) ↔ xs = ys)
  | [], [], _ => by simp
  | x :: xs, y :: ys, h => by
    rw [zip_cons_cons, forall_mem_cons, forall_zip_eq (Nat.succ.inj h), List.cons.injEq]

theorem tokensEqual_iff {a b : Token} : tokensEqual a b = true ↔ a = b := by
  rw [tokensEqual, beq_iff_eq, foldl_or_eq_zero, forall_zip_eq (by simp)]
  exact ⟨fun h => List.Vector.eq _ _ h.2, fun h => ⟨rfl, congrArg _ h⟩⟩

/-- `secure_zero` of a token that has been compared. -/
def wiped : Message → Message
  | .hello version _ => .hello version (.replicate 32 0)
  | m => m

def isHello : Message → Bool
  | .hello _ _ => true
  | _ => false

def isSessionEnded : Message → Bool
  | .sessionEnded _ _ => true
  | _ => false

structure AgentLink where
  expected : Token
  greeted : Bool := false
  ended : Bool := false

namespace AgentLink

variable (link : AgentLink)

/-- What becomes of a message that `decode_from` gave. -/
def receiveMessage : Message → Result Message × AgentLink
  | .hello version token =>
    let valid := !link.greeted && version == protocolVersion && tokensEqual token link.expected
    if valid = false then (fail .invalidValue "agent hello repeated, of another version or with a wrong token" 0, link)
    else (.ok (wiped (.hello version token)), { link with greeted := true })
  | m =>
    if link.greeted = false then (fail .invalidValue "agent did not start with a hello" 0, link)
    else (.ok m, { link with ended := isSessionEnded m })

def receive (frame : List UInt8) (withFd : Bool) : Result Message × AgentLink :=
  if link.ended = true then (fail .invalidValue "agent sent a message after SessionEnded" 0, link)
  else
    match decodeFrom .agent frame withFd with
    | .error e => (.error e, link)
    | .ok m => link.receiveMessage m

/-- A message that the link takes now. -/
def Takes (m : Message) : Prop :=
  link.ended = false ∧ if isHello m = true then link.greeted = false ∧ m = .hello protocolVersion link.expected
    else link.greeted = true

def after (m : Message) : AgentLink :=
  if isHello m = true then { link with greeted := true } else { link with ended := isSessionEnded m }

theorem receiveMessage_cases (hended : link.ended = false) (m : Message) :
    link.Takes m ∧ link.receiveMessage m = (.ok (wiped m), link.after m) ∨
      ¬ link.Takes m ∧ ∃ e, link.receiveMessage m = (.error e, link) := by
  cases m with
  | hello version token =>
    by_cases hvalid : link.greeted = false ∧ Message.hello version token = .hello protocolVersion link.expected
    · refine Or.inl ⟨⟨hended, hvalid⟩, ?_⟩
      obtain ⟨hgreeted, heq⟩ := hvalid
      cases heq
      simp [receiveMessage, hgreeted, tokensEqual_iff.mpr, after, isHello]
    · refine Or.inr ⟨fun h => hvalid h.2, _, if_pos ?_⟩
      by_contra htrue
      simp only [Bool.not_eq_false, Bool.and_eq_true, Bool.not_eq_true', beq_iff_eq, tokensEqual_iff] at htrue
      obtain ⟨⟨hgreeted, rfl⟩, rfl⟩ := htrue
      exact hvalid ⟨hgreeted, rfl⟩
  | _ =>
    by_cases hgreeted : link.greeted = true
    · exact Or.inl ⟨⟨hended, hgreeted⟩, if_neg (by simp [hgreeted])⟩
    · exact Or.inr ⟨fun h => hgreeted h.2, _, if_pos (by simpa using hgreeted)⟩

/-- A frame is taken or refused by what was taken before, and what is refused changes nothing. -/
theorem receive_cases (frame : List UInt8) (withFd : Bool) :
    (∃ m, decodeFrom .agent frame withFd = .ok m ∧ link.Takes m ∧
      link.receive frame withFd = (.ok (wiped m), link.after m)) ∨
    (∀ m, decodeFrom .agent frame withFd = .ok m → ¬ link.Takes m) ∧
      ∃ e, link.receive frame withFd = (.error e, link) := by
  unfold receive
  by_cases hended : link.ended = true
  · refine Or.inr ⟨fun m _ htakes => ?_, _, if_pos hended⟩
    rw [htakes.1] at hended
    cases hended
  · rw [if_neg hended]
    rw [Bool.not_eq_true] at hended
    rcases hd : decodeFrom .agent frame withFd with e | m
    · exact Or.inr ⟨fun m hm => (by cases hm), e, rfl⟩
    · rcases link.receiveMessage_cases hended m with ⟨htakes, hreceive⟩ | ⟨hnot, he⟩
      · exact Or.inl ⟨m, rfl, htakes, hreceive⟩
      · refine Or.inr ⟨fun m' hm' => ?_, he⟩
        cases hm'
        exact hnot

/-- The messages a link has taken, whatever frames it refused in between. -/
inductive Received (expected : Token) : AgentLink → List Message → Prop where
  | fresh : Received expected { expected := expected } []
  | refused {link : AgentLink} {trace : List Message} {frame : List UInt8} {withFd : Bool} {e : Error} :
    Received expected link trace → (link.receive frame withFd).1 = .error e →
      Received expected (link.receive frame withFd).2 trace
  | taken {link : AgentLink} {trace : List Message} {frame : List UInt8} {withFd : Bool} {m m' : Message} :
    Received expected link trace → decodeFrom .agent frame withFd = .ok m →
      (link.receive frame withFd).1 = .ok m' → Received expected (link.receive frame withFd).2 (trace ++ [m])

/-- A Hello with the token, then an agent's other messages, and nothing behind a SessionEnded. -/
def Allowed (expected : Token) : List Message → Prop
  | [] => True
  | m :: rest => m = .hello protocolVersion expected ∧
      (∀ m ∈ rest, maySend .agent m = true ∧ isHello m = false) ∧ ∀ m ∈ rest.dropLast, isSessionEnded m = false

/-- What a link knows of what it has taken. -/
structure Knows (expected : Token) (link : AgentLink) (trace : List Message) : Prop where
  expected_eq : link.expected = expected
  greeted : link.greeted = true ↔ trace ≠ []
  ended : link.ended = false ↔ ∀ m ∈ trace, isSessionEnded m = false
  allowed : Allowed expected trace

variable {trace : List Message} {expected : Token} {link : AgentLink}

/-- A message is taken just when the trace with it is still one of the language. -/
theorem Knows.takes_iff (h : Knows expected link trace) {m : Message} (hm : maySend .agent m = true) :
    link.Takes m ↔ Allowed expected (trace ++ [m]) := by
  unfold Takes
  rw [h.ended]
  cases trace with
  | nil =>
    have hgreeted : link.greeted = false := by
      rw [← Bool.not_eq_true, h.greeted]
      simp
    rw [hgreeted, h.expected_eq]
    cases hhello : isHello m with
    | true => simp [Allowed]
    | false =>
      have hne : m ≠ .hello protocolVersion expected := by
        rintro rfl
        cases hhello
      simp [Allowed, hne]
  | cons first rest =>
    have hgreeted : link.greeted = true := h.greeted.mpr (cons_ne_nil _ _)
    obtain ⟨rfl, hrest, -⟩ := h.allowed
    rw [hgreeted, cons_append, Allowed, forall_mem_append]
    have hfirst : isSessionEnded (.hello protocolVersion expected) = false := rfl
    cases hhello : isHello m with
    | true => simp [hhello]
    | false => simpa [hhello, hm, hfirst] using fun _ => hrest

theorem Received.knows (h : Received expected link trace) : Knows expected link trace := by
  induction h with
  | fresh => exact ⟨rfl, by simp, by simp, trivial⟩
  | @refused link trace frame withFd e _ hrefused ih =>
    rcases link.receive_cases frame withFd with ⟨m, _, _, hreceive⟩ | ⟨_, e', hreceive⟩
    · rw [hreceive] at hrefused
      cases hrefused
    · rw [hreceive]
      exact ih
  | @taken link trace frame withFd m m' _ hm htaken ih =>
    rcases link.receive_cases frame withFd with ⟨m₁, hm₁, htakes, hreceive⟩ | ⟨_, e', hreceive⟩
    · rw [hm] at hm₁
      cases hm₁
      have hallowed := (ih.takes_iff (decodeFrom_ok.mp hm).2.1).mp htakes
      rw [hreceive]
      have hnone := ih.ended.mp htakes.1
      have hgreeted : (link.after m).greeted = true := by
        have hnext := htakes.2
        unfold after
        split_ifs at hnext ⊢ with hhello
        · rfl
        · exact hnext
      have hended : (link.after m).ended = isSessionEnded m := by
        unfold after
        split_ifs with hhello
        · have hnot : isSessionEnded m = false := by cases m <;> first | rfl | cases hhello
          rw [hnot]
          exact htakes.1
        · rfl
      refine ⟨?_, by simp [hgreeted], ?_, hallowed⟩
      · rw [← ih.expected_eq]
        unfold after
        split_ifs <;> rfl
      · rw [hended, forall_mem_append, forall_mem_singleton]
        exact ⟨fun hlast => ⟨hnone, hlast⟩, fun hall => hall.2⟩
    · rw [hreceive] at htaken
      cases htaken

/-- Of the next frame a link takes what keeps to the language. -/
theorem Received.language (h : Received expected link trace) (frame : List UInt8) (withFd : Bool) (m' : Message) :
    (link.receive frame withFd).1 = .ok m' ↔
      ∃ m, decodeFrom .agent frame withFd = .ok m ∧ m' = wiped m ∧ Allowed expected (trace ++ [m]) := by
  have hknows := h.knows
  rcases link.receive_cases frame withFd with ⟨m, hm, htakes, hreceive⟩ | ⟨hnone, e, hreceive⟩
  · rw [hreceive]
    constructor
    · intro heq
      cases heq
      exact ⟨m, hm, rfl, (hknows.takes_iff (decodeFrom_ok.mp hm).2.1).mp htakes⟩
    · rintro ⟨m₁, hm₁, rfl, -⟩
      rw [hm] at hm₁
      cases hm₁
      rfl
  · rw [hreceive]
    refine ⟨fun heq => (by cases heq), ?_⟩
    rintro ⟨m, hm, rfl, hallowed⟩
    exact absurd ((hknows.takes_iff (decodeFrom_ok.mp hm).2.1).mpr hallowed) (hnone m hm)

end AgentLink

/-- **The codec of the broker and its link**: every message in the limits is written, found and read back; every
accepted frame is the one that is written for its message, but for the number of a backend that is not there; each
side may send its own messages, a NewConnection alone with a descriptor; and the link takes its language. -/
theorem broker_codec :
    (∀ m : Message, m.InLimits → ∃ frame, encode m = some frame ∧ decode frame = .ok m ∧
      ∀ rest, messageLength (frame ++ rest) = .ok (some frame.length)) ∧
    (∀ frame m, decode frame = .ok m → m.InLimits ∧ encode m = some (canonical frame)) ∧
    (∀ sender frame withFd m, decodeFrom sender frame withFd = .ok m ↔
      decode frame = .ok m ∧ maySend sender m = true ∧ withFd = carriesFd m) ∧
    ∀ expected link trace, AgentLink.Received expected link trace → AgentLink.Allowed expected trace ∧
      ∀ frame withFd m', (link.receive frame withFd).1 = .ok m' ↔ ∃ m, decodeFrom .agent frame withFd = .ok m ∧
        m' = wiped m ∧ AgentLink.Allowed expected (trace ++ [m]) := by
  refine ⟨fun m h => ?_, fun frame m h => encode_decode h, fun sender frame withFd m => decodeFrom_ok,
    fun expected link trace h => ⟨h.knows.allowed, fun frame withFd => h.language frame withFd⟩⟩
  obtain ⟨hm, frame, hframe⟩ := h.encodes
  exact ⟨frame, hframe, decode_encode hframe hm, messageLength_encode hframe hm⟩

/-- A user of two monitors comes back with a cookie and has typed already. -/
def comingBack : Message := .newConnection {
  connectionId := 7
  negotiation := ⟨[0x61], 3, protocolHybrid, some ⟨[0x61, 0x6C], [0x64]⟩⟩
  password := [0x70, 0x77]
  peer := [0x3A, 0x3A, 0x31]
  elapsedMs := 250
  client := some {
    desktopWidth := 1920, desktopHeight := 1080
    monitors := [⟨0, 0, 1279, 1079, true⟩, ⟨-640, 0, -1, 1079, false⟩]
    keyboardLayout := 0x407, clientName := [0x70, 0x63], desktopScaleFactor := some 150 }
  autoReconnect := some ⟨9, .replicate 16 5⟩
  pendingInput := [0x44, 0x04, 0x01, 0x1E] }

def greeting : Message := .hello protocolVersion (.replicate 32 1)

def allowing : Message := .consentReply 7 .allowed

def loggedOut : Message := .sessionEnded .logout [0x62, 0x79, 0x65]

def frameOf (m : Message) : List UInt8 := (encode m).getD []

/-- Settings without a backend, and with the number of one. -/
def strayBackend : List UInt8 := (frameOf (.settings {})).set 10 3

/-- An agent that answers before it greets, and sends what only farlandd may. -/
theorem received_loggedOut : ∃ link, AgentLink.Received (.replicate 32 1) link [greeting, allowing, loggedOut] := by
  have hearly : (AgentLink.receive { expected := .replicate 32 1 } (frameOf allowing) false).1 =
      .error ⟨.invalidValue, "agent did not start with a hello", 0⟩ := by decide +kernel
  have early := AgentLink.Received.fresh.refused hearly
  have greeted := early.taken (show decodeFrom .agent (frameOf greeting) false = .ok greeting by decide +kernel)
    (show (AgentLink.receive _ (frameOf greeting) false).1 = .ok (wiped greeting) by decide +kernel)
  have allowed := greeted.taken (show decodeFrom .agent (frameOf allowing) false = .ok allowing by decide +kernel)
    (show (AgentLink.receive _ (frameOf allowing) false).1 = .ok allowing by decide +kernel)
  have wrongSide := allowed.refused (show (AgentLink.receive _ (frameOf comingBack) true).1 =
    .error ⟨.invalidValue, "broker message from the wrong side", 4⟩ by decide +kernel)
  have ended := wrongSide.taken (show decodeFrom .agent (frameOf loggedOut) false = .ok loggedOut by decide +kernel)
    (show (AgentLink.receive _ (frameOf loggedOut) false).1 = .ok loggedOut by decide +kernel)
  exact ⟨_, ended⟩

theorem broker_codec_comingBack :
    (comingBack.InLimits ∧ encode comingBack = some (frameOf comingBack) ∧
      decodeFrom .daemon (frameOf comingBack) true = .ok comingBack ∧
      ∀ rest, messageLength (frameOf comingBack ++ rest) = .ok (some (frameOf comingBack).length)) ∧
    (decode strayBackend = .ok (.settings {}) ∧ encode (.settings {}) = some (canonical strayBackend) ∧
      canonical strayBackend ≠ strayBackend) ∧
    ∃ link, AgentLink.Received (.replicate 32 1) link [greeting, allowing, loggedOut] ∧
      ∀ frame withFd m, (link.receive frame withFd).1 ≠ .ok m := by
  have hdecoded : decode (frameOf comingBack) = .ok comingBack := by decide +kernel
  have hlimits : comingBack.InLimits := (broker_codec.2.1 _ _ hdecoded).1
  obtain ⟨frame, hframe, hread, hlength⟩ := broker_codec.1 comingBack hlimits
  have hwritten : frame = frameOf comingBack := by rw [frameOf, hframe, getD_some]
  rw [hwritten] at hframe hread hlength
  obtain ⟨link, hreceived⟩ := received_loggedOut
  have hstray : decode strayBackend = .ok (.settings {}) := by decide +kernel
  refine ⟨⟨hlimits, hframe, (broker_codec.2.2.1 _ _ _ _).mpr ⟨hread, rfl, rfl⟩, hlength⟩,
    ⟨hstray, (broker_codec.2.1 _ _ hstray).2, by decide +kernel⟩, link, hreceived, ?_⟩
  intro frame withFd m htaken
  obtain ⟨m', -, -, -, -, hlast⟩ := ((broker_codec.2.2.2 _ link _ hreceived).2 frame withFd m).mp htaken
  have hopen : isSessionEnded loggedOut = false := hlast loggedOut (.tail _ (.head _))
  exact absurd hopen (by decide)

end Wire
end Broker
end Server
end Farland
