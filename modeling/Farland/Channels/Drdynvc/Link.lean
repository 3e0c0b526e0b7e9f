/-
# One channel between the two sides

What both sides and both queues hold about one channel id is a `View`, and
`Linked` lists the situations a view can be in, from an id never opened to a
channel the server has forgotten. Closes that cross creates, answers and data
end in the last one, where every late PDU finds no channel.

The data of an open channel is a `Flow`: the fragments on their way, fed to the
server's reassembler, complete exactly the messages the client has completed
and not yet seen delivered, and leave it where the client stands.

Key theorems: `Flow.emit`, `Flow.arrive`.
-/
import Farland.Channels.Drdynvc.Client

namespace Farland
namespace Channels
namespace Drdynvc

open List

variable {D : Type}

/-! ### Fragments and the reassembler -/

/-- A fragment of a message. -/
inductive Frag where
  | first (length : ℕ) (block : List UInt8)
  | next (block : List UInt8)
  deriving DecidableEq

def Frag.pdu (id : ℕ) : Frag → ClientPdu
  | .first length block => .common (.dataFirst ⟨id, length, block⟩)
  | .next block => .common (.data ⟨id, block⟩)

def MessageReassembler.take (r : MessageReassembler) : Frag → Result (Option (List UInt8)) × MessageReassembler
  | .first length block => r.first length block
  | .next block => r.next block

variable {id : ℕ} {r : MessageReassembler} {out : Option Outgoing}

/-- The reassembler takes all fragments without an error and completes these messages. -/
inductive Feeds : MessageReassembler → List Frag → List (List UInt8) → MessageReassembler → Prop
  | nil (r : MessageReassembler) : Feeds r [] [] r
  | cons {r r₁ r' : MessageReassembler} {f : Frag} {fs : List Frag} {o : Option (List UInt8)}
      {ms : List (List UInt8)} : r.take f = (.ok o, r₁) → Feeds r₁ fs ms r' → Feeds r (f :: fs) (o.toList ++ ms) r'

variable {o : Option (List UInt8)}

theorem Feeds.snoc {r' r₁ : MessageReassembler} {fs : List Frag} {ms : List (List UInt8)} {f : Frag}
    (h : Feeds r fs ms r') (hf : r'.take f = (.ok o, r₁)) : Feeds r (fs ++ [f]) (ms ++ o.toList) r₁ := by
  induction h with
  | nil r =>
    rw [← append_nil o.toList]
    exact .cons hf (.nil r₁)
  | cons ht _ ih =>
    rw [append_assoc]
    exact .cons ht (ih hf)

/-- The reassembler stands where the sender of `out` does. -/
def Matches (r : MessageReassembler) : Option Outgoing → Prop
  | none => r.total = none
  | some out => r.total = some (out.done ++ out.rest).length ∧ r.buffer = out.done ∧ out.rest ≠ []

/-- The message that is complete once `rest` is left of it. -/
def completes (message rest : List UInt8) : Option (List UInt8) := if rest = [] then some message else none

theorem take_whole {message : List UInt8} (h : Matches r none)
    (hl : message.length ≤ r.maxSize) : r.take (.next message) = (.ok (some message), r) := by
  unfold MessageReassembler.take MessageReassembler.next
  rw [show r.total = none from h]
  exact if_neg (Nat.not_lt.mpr hl)

theorem take_first (block rest : List UInt8) (h : Matches r none)
    (hl : (block ++ rest).length ≤ r.maxSize) :
    ∃ r₁, r.take (.first (block ++ rest).length block) = (.ok (completes block rest), r₁) ∧
      r₁.maxSize = r.maxSize ∧ Matches r₁ (Client.progress block rest) := by
  have ht : r.total = none := h
  change ∃ r₁, r.first (block ++ rest).length block = _ ∧ _
  unfold MessageReassembler.first
  rw [if_neg (by simp [ht]), if_neg (Nat.not_lt.mpr hl), if_neg (by simp)]
  unfold completes Client.progress
  by_cases hr : rest = []
  · subst hr
    exact ⟨r, by simp, rfl, h⟩
  · have hne : block.length ≠ (block ++ rest).length := by
      have := length_pos_iff.mpr hr
      rw [length_append]
      omega
    rw [if_neg hne, if_neg hr, if_neg hr]
    exact ⟨_, rfl, rfl, rfl, rfl, hr⟩

theorem take_next {done block rest : List UInt8} (h : Matches r (some ⟨done, block ++ rest⟩)) :
    ∃ r₁, r.take (.next block) = (.ok (completes (done ++ block) rest), r₁) ∧
      r₁.maxSize = r.maxSize ∧ Matches r₁ (Client.progress (done ++ block) rest) := by
  obtain ⟨ht, hb, -⟩ := h
  have hlen : (done ++ (block ++ rest)).length = done.length + block.length + rest.length := by
    rw [length_append, length_append]
    omega
  change ∃ r₁, r.next block = _ ∧ _
  unfold MessageReassembler.next
  rw [ht, hb, hlen]
  dsimp only
  rw [if_neg (by omega), length_append]
  unfold completes Client.progress
  by_cases hr : rest = []
  · subst hr
    rw [if_neg (by simp)]
    exact ⟨_, rfl, rfl, rfl⟩
  · have := length_pos_iff.mpr hr
    rw [if_pos (by omega), if_neg hr, if_neg hr]
    refine ⟨_, rfl, rfl, ?_, rfl, hr⟩
    rw [length_append, length_append]

/-! ### The view of one channel -/

/-- What is on its way to the client about a channel, data apart. -/
inductive Down where
  | create
  | close
  deriving DecidableEq

def ServerPdu.down (id : ℕ) : ServerPdu → Option Down
  | .createRequest pdu => if pdu.channelId = id then some .create else none
  | .common (.close pdu) => if pdu.channelId = id then some .close else none
  | _ => none

/-- The channel a client's PDU is about. -/
def ClientPdu.channel : ClientPdu → Option ℕ
  | .createResponse pdu => some pdu.channelId
  | .common (.dataFirst pdu) => some pdu.channelId
  | .common (.data pdu) => some pdu.channelId
  | .common (.dataFirstCompressed pdu) => some pdu.channelId
  | .common (.dataCompressed pdu) => some pdu.channelId
  | .common (.close pdu) => some pdu.channelId
  | .capsResponse _ | .softSyncResponse _ => none

def downOf (id : ℕ) (m : List UInt8) : Option Down :=
  match decodeServerPdu m with
  | .ok pdu => pdu.down id
  | .error _ => none

def upOf (id : ℕ) (m : List UInt8) : Option ClientPdu :=
  match decodeClientPdu m with
  | .ok pdu => if pdu.channel = some id then some pdu else none
  | .error _ => none

/-- All that server, client and queues hold about one channel. -/
@[ext] structure View (D : Type) where
  chan : Option (Channel D)
  down : List Down
  phase : Phase
  up : List ClientPdu
  data : List (List UInt8)
  sent : List (List UInt8)
  outcomes : ℕ
  limit : ℕ
  opened : Prop
  closed : Prop
  replying : Prop

/-- The fragments on their way bring the server to where the client stands,
and the client holds the channel unless its Close is behind them. -/
structure Flow (r : MessageReassembler) (frags : List Frag) (last : List ClientPdu) (id : ℕ) (v : View D) : Prop where
  feeds : ∃ ms r', Feeds r frags ms r' ∧ v.data ++ ms = v.sent ∧
    ((last = [] ∧ r'.maxSize = v.limit ∧ ∃ out, v.phase = .held out ∧ Matches r' out) ∨
      (last = [.common (.close ⟨id⟩)] ∧ v.phase = .gone ∧ v.closed))

/-- The situations a channel can be in. -/
inductive Linked (id : ℕ) (v : View D) : Prop
  /-- Never opened. -/
  | fresh : v.chan = none → v.down = [] → v.phase = .unknown → v.up = [] → v.data = [] → v.sent = [] →
      v.outcomes = 0 → ¬ v.replying → Linked id v
  /-- Waiting for the capabilities exchange. -/
  | pending {c : Channel D} : v.opened → v.chan = some c → c.state = .pending → c.reassembler = { maxSize := v.limit } →
      v.down = [] → v.phase = .unknown → v.up = [] → v.data = [] → v.sent = [] → v.outcomes = 0 →
      ¬ v.replying → Linked id v
  /-- The Create Request is on its way. -/
  | requested {c : Channel D} : v.opened → v.chan = some c → c.state = .opening →
      c.reassembler = { maxSize := v.limit } → v.down = [.create] → v.phase = .unknown → v.up = [] →
      v.data = [] → v.sent = [] → v.outcomes = 0 → ¬ v.replying → Linked id v
  /-- The client has not answered yet. -/
  | asked {c : Channel D} : v.opened → v.chan = some c → c.state = .opening →
      c.reassembler = { maxSize := v.limit } → v.down = [] → v.phase = .asked → v.up = [] →
      v.data = [] → v.sent = [] → v.outcomes = 0 → ¬ v.replying → Linked id v
  /-- The refusal is on its way. -/
  | refused {c : Channel D} {status : ℤ} : v.opened → v.chan = some c → c.state = .opening → v.down = [] →
      v.phase = .gone → v.up = [.createResponse ⟨id, status⟩] → status < 0 →
      v.data = [] → v.sent = [] → v.outcomes = 0 → ¬ v.replying → Linked id v
  /-- The acceptance is on its way, with what the client sent since. -/
  | accepted {c : Channel D} {status : ℤ} {frags : List Frag} {last : List ClientPdu} : v.opened → v.chan = some c →
      c.state = .opening → v.down = [] → 0 ≤ status →
      v.up = .createResponse ⟨id, status⟩ :: (frags.map (Frag.pdu id) ++ last) →
      Flow c.reassembler frags last id v → v.outcomes = 0 → ¬ v.replying → Linked id v
  /-- Open at the server. -/
  | opened {c : Channel D} {frags : List Frag} {last : List ClientPdu} : v.opened → v.chan = some c →
      c.state = .opened → v.down = [] → v.up = frags.map (Frag.pdu id) ++ last →
      Flow c.reassembler frags last id v → v.outcomes ≤ 1 → ¬ v.replying → Linked id v
  /-- The refusal has arrived. -/
  | failed : v.opened → v.chan = none → v.down = [] → v.phase = .gone → v.up = [] → v.data = [] → v.sent = [] →
      v.outcomes ≤ 1 → ¬ v.replying → Linked id v
  /-- Closed, and forgotten by the server. -/
  | dead : v.opened → v.closed → v.chan = none →
      ((v.down = [] ∧ v.phase ≠ .asked ∧ ∀ out, v.phase ≠ .held out) ∨ v.down = [.close] ∨
        (v.down = [.create, .close] ∧ v.phase = .unknown)) →
      v.data <+: v.sent → v.outcomes ≤ 1 → Linked id v

/-! ### The server's calls -/

variable {v : View D}

theorem Linked.fresh_of_not_opened (h : Linked id v) (ho : ¬ v.opened) :
    v.chan = none ∧ v.down = [] ∧ v.phase = .unknown ∧ v.up = [] ∧ v.data = [] ∧ v.sent = [] ∧ v.outcomes = 0 ∧
      ¬ v.replying := by
  cases h with
  | fresh h₁ h₂ h₃ h₄ h₅ h₆ h₇ h₈ => exact ⟨h₁, h₂, h₃, h₄, h₅, h₆, h₇, h₈⟩
  | pending h | requested h | asked h | refused h | accepted h | opened h | failed h | dead h => exact absurd h ho

/-- A channel opened before the exchange is over. -/
theorem Linked.openPending {limit : ℕ} {c : Channel D} (h : Linked id v) (ho : ¬ v.opened) (hs : c.state = .pending)
    (hr : c.reassembler = { maxSize := limit }) :
    Linked id { v with chan := some c, limit := limit, opened := True } := by
  obtain ⟨-, h₂, h₃, h₄, h₅, h₆, h₇, h₈⟩ := h.fresh_of_not_opened ho
  exact .pending trivial rfl hs hr h₂ h₃ h₄ h₅ h₆ h₇ h₈

/-- Its Create Request leaves. -/
theorem Linked.request {c : Channel D} (h : Linked id v) (hc : v.chan = some c) (hs : c.state = .pending) :
    Linked id { v with chan := some { c with state := .opening }, down := v.down ++ [.create] } := by
  cases h with
  | pending ho hc' _ hr h₂ h₃ h₄ h₅ h₆ h₇ h₈ =>
    cases hc'.symm.trans hc
    exact .requested ho rfl rfl hr (congrArg (· ++ [Down.create]) h₂) h₃ h₄ h₅ h₆ h₇ h₈
  | fresh hn | failed _ hn | dead _ _ hn => exact absurd (hn.symm.trans hc) nofun
  | requested _ hc' hs' | asked _ hc' hs' | refused _ hc' hs' | accepted _ hc' hs' | opened _ hc' hs' =>
    cases hc'.symm.trans hc
    exact absurd (hs'.symm.trans hs) nofun

variable {last : List ClientPdu} {frags : List Frag}

theorem Flow.isPrefix (h : Flow r frags last id v) : v.data <+: v.sent := by
  obtain ⟨ms, r', _, hs, _⟩ := h.feeds
  exact ⟨ms, hs⟩

theorem Linked.isPrefix (h : Linked id v) : v.data <+: v.sent := by
  cases h with
  | fresh _ _ _ _ hd hs | pending _ _ _ _ _ _ _ hd hs | requested _ _ _ _ _ _ _ hd hs
  | asked _ _ _ _ _ _ _ hd hs | refused _ _ _ _ _ _ _ hd hs | failed _ _ _ _ _ hd hs => rw [hd, hs]
  | accepted _ _ _ _ _ _ hf | opened _ _ _ _ _ hf => exact hf.isPrefix
  | dead _ _ _ _ hp => exact hp

theorem Linked.outcomes_le (h : Linked id v) : v.outcomes ≤ 1 := by
  cases h with
  | fresh _ _ _ _ _ _ hn | pending _ _ _ _ _ _ _ _ _ hn | requested _ _ _ _ _ _ _ _ _ hn
  | asked _ _ _ _ _ _ _ _ _ hn | refused _ _ _ _ _ _ _ _ _ hn | accepted _ _ _ _ _ _ _ hn =>
    rw [hn]
    exact Nat.zero_le 1
  | opened _ _ _ _ _ _ hn | failed _ _ _ _ _ _ _ hn | dead _ _ _ _ _ hn => exact hn

/-- The server's caller closes a channel. -/
theorem Linked.serverClose {c : Channel D} (h : Linked id v) (hc : v.chan = some c) :
    Linked (D := D) id { v with
      chan := none, down := v.down ++ (if c.state = .pending then [] else [.close]), closed := True } := by
  have hp := h.isPrefix
  have hn := h.outcomes_le
  cases h with
  | fresh hn | failed _ hn | dead _ _ hn => exact absurd (hn.symm.trans hc) nofun
  | pending ho hc' hs _ hd hph =>
    cases hc'.symm.trans hc
    refine .dead ho trivial rfl (.inl ⟨?_, ?_, ?_⟩) hp hn
    · rw [if_pos hs, append_nil]
      exact hd
    · exact fun h => absurd (hph.symm.trans h) nofun
    · exact fun out h => absurd (hph.symm.trans h) nofun
  | requested ho hc' hs _ hd hph =>
    cases hc'.symm.trans hc
    refine .dead ho trivial rfl (.inr (.inr ⟨?_, hph⟩)) hp hn
    rw [if_neg (by simp [hs])]
    exact congrArg (· ++ [Down.close]) hd
  | asked ho hc' hs _ hd | refused ho hc' hs hd | accepted ho hc' hs hd | opened ho hc' hs hd =>
    cases hc'.symm.trans hc
    refine .dead ho trivial rfl (.inr (.inl ?_)) hp hn
    rw [if_neg (by simp [hs])]
    exact congrArg (· ++ [Down.close]) hd

/-! ### A PDU reaches the server -/

/-- **What the next PDU of a channel finds at the server**: no channel, so it
is ignored, or a channel that expects it. -/
theorem Linked.arrive {pdu : ClientPdu} {rest : List ClientPdu} (h : Linked id v) (hu : v.up = pdu :: rest) :
    (v.chan = none ∧ Linked id { v with up := rest }) ∨
    (∃ c status, pdu = .createResponse ⟨id, status⟩ ∧ v.chan = some c ∧ c.state = .opening ∧ status < 0 ∧
      Linked (D := D) id { v with chan := none, up := rest, outcomes := v.outcomes + 1 }) ∨
    (∃ c status, pdu = .createResponse ⟨id, status⟩ ∧ v.chan = some c ∧ c.state = .opening ∧ ¬ status < 0 ∧
      Linked id { v with chan := some { c with state := .opened }, up := rest, outcomes := v.outcomes + 1 }) ∨
    (∃ c f o r₁, pdu = Frag.pdu id f ∧ v.chan = some c ∧ c.state = .opened ∧ c.reassembler.take f = (.ok o, r₁) ∧
      Linked id { v with chan := some { c with reassembler := r₁ }, up := rest, data := v.data ++ o.toList }) ∨
    (∃ c, pdu = .common (.close ⟨id⟩) ∧ v.chan = some c ∧ c.state = .opened ∧
      Linked (D := D) id { v with chan := none, up := rest }) := by
  cases h with
  | fresh _ _ _ hn | pending _ _ _ _ _ _ hn | requested _ _ _ _ _ _ hn | asked _ _ _ _ _ _ hn
  | failed _ _ _ _ hn => exact absurd (hn.symm.trans hu) nofun
  | refused ho hc hs hd hph hup hlt h₅ h₆ h₇ h₈ =>
    cases hup.symm.trans hu
    refine .inr (.inl ⟨_, _, rfl, hc, hs, hlt, .failed ho rfl hd hph rfl h₅ h₆ ?_ h₈⟩)
    exact (congrArg (· + 1) h₇).le
  | accepted ho hc hs hd hle hup hf h₇ h₈ =>
    cases hup.symm.trans hu
    refine .inr (.inr (.inl ⟨_, _, rfl, hc, hs, not_lt.mpr hle, .opened ho rfl rfl hd rfl ⟨hf.feeds⟩ ?_ h₈⟩))
    exact (congrArg (· + 1) h₇).le
  | @opened c frags last ho hc hs hd hup hf h₇ h₈ =>
    obtain ⟨ms, r', hfeed, hsent, hlast⟩ := hf.feeds
    cases hfeed with
    | nil =>
      -- no fragment is left, so the PDU is the client's Close
      rcases hlast with ⟨rfl, -⟩ | ⟨rfl, hph, hcl⟩
      · exact absurd (hup.symm.trans hu) nofun
      · cases hup.symm.trans hu
        refine .inr (.inr (.inr (.inr ⟨c, rfl, hc, hs, .dead ho hcl rfl (.inl ⟨hd, ?_, ?_⟩) hf.isPrefix h₇⟩)))
        · exact fun h => absurd (hph.symm.trans h) nofun
        · exact fun out h => absurd (hph.symm.trans h) nofun
    | @cons _ r₁ _ f fs o ms ht hfs =>
      cases hup.symm.trans hu
      refine .inr (.inr (.inr (.inl ⟨c, f, o, r₁, rfl, hc, hs, ht, .opened ho rfl hs hd rfl ⟨?_⟩ h₇ h₈⟩)))
      exact ⟨ms, r', hfs, (append_assoc _ _ _).trans hsent, hlast⟩
  | dead ho hcl hn hd hp h₇ => exact .inl ⟨hn, .dead ho hcl hn hd hp h₇⟩

/-! ### A PDU reaches the client -/

theorem Linked.clientCreate {rest : List Down} (h : Linked id v) (hd : v.down = .create :: rest) :
    Linked id { v with down := rest, phase := .asked } := by
  cases h with
  | fresh _ hn | pending _ _ _ _ hn | asked _ _ _ _ hn | refused _ _ _ hn | accepted _ _ _ hn | opened _ _ _ hn
  | failed _ _ hn => exact absurd (hn.symm.trans hd) nofun
  | requested ho hc hs hr hd' _ h₄ h₅ h₆ h₇ h₈ =>
    cases hd'.symm.trans hd
    exact .asked ho hc hs hr rfl rfl h₄ h₅ h₆ h₇ h₈
  | dead ho hcl hn hd' hp h₇ =>
    rcases hd' with ⟨hd', -⟩ | hd' | ⟨hd', -⟩
    · exact absurd (hd'.symm.trans hd) nofun
    · exact absurd (hd'.symm.trans hd) nofun
    · cases hd'.symm.trans hd
      exact .dead ho hcl hn (.inr (.inl rfl)) hp h₇

theorem Linked.clientClose {rest : List Down} (h : Linked id v) (hd : v.down = .close :: rest) :
    Linked id { v with down := rest, phase := Client.dropped v.phase, replying := True } := by
  cases h with
  | fresh _ hn | pending _ _ _ _ hn | requested _ _ _ _ hn | asked _ _ _ _ hn | refused _ _ _ hn | accepted _ _ _ hn
  | opened _ _ _ hn | failed _ _ hn => exact absurd (hn.symm.trans hd) nofun
  | dead ho hcl hn hd' hp h₇ =>
    rcases hd' with ⟨hd', -⟩ | hd' | ⟨hd', -⟩
    · exact absurd (hd'.symm.trans hd) nofun
    · cases hd'.symm.trans hd
      refine .dead ho hcl hn (.inl ⟨rfl, ?_, ?_⟩) hp h₇
      · show Client.dropped v.phase ≠ .asked
        cases v.phase <;> exact nofun
      · show ∀ out, Client.dropped v.phase ≠ .held out
        cases v.phase <;> exact nofun
    · exact absurd (hd'.symm.trans hd) nofun

/-! ### A PDU leaves the client -/

theorem Linked.clientAccept {status : ℤ} (h : Linked id v) (hph : v.phase = .asked) (hs : 0 ≤ status) :
    Linked id { v with phase := .held none, up := v.up ++ [.createResponse ⟨id, status⟩] } := by
  cases h with
  | fresh _ _ hn | pending _ _ _ _ _ hn | requested _ _ _ _ _ hn | refused _ _ _ _ hn | failed _ _ _ hn =>
    exact absurd (hn.symm.trans hph) nofun
  | accepted _ _ _ _ _ _ hf | opened _ _ _ _ _ hf =>
    obtain ⟨_, _, _, _, ⟨-, -, out, hn, -⟩ | ⟨-, hn, -⟩⟩ := hf.feeds
    all_goals exact absurd (hn.symm.trans hph) nofun
  | @asked c ho hc hst hr hd _ hup h₅ h₆ h₇ h₈ =>
    have hup' : v.up ++ [.createResponse ⟨id, status⟩] =
        .createResponse ⟨id, status⟩ :: (([] : List Frag).map (Frag.pdu id) ++ []) := congrArg (· ++ [_]) hup
    have hm : Matches c.reassembler none := by rw [hr]; rfl
    have hmax : c.reassembler.maxSize = v.limit := by rw [hr]
    refine .accepted ho hc hst hd hs hup' ⟨[], c.reassembler, .nil _, ?_, .inl ⟨rfl, hmax, none, rfl, hm⟩⟩ h₇ h₈
    exact (append_nil _).trans (h₅.trans h₆.symm)
  | dead ho hcl hn hd hp h₇ =>
    rcases hd with ⟨-, hd, -⟩ | hd | ⟨-, hd⟩
    · exact absurd hph hd
    · exact .dead ho hcl hn (.inr (.inl hd)) hp h₇
    · exact absurd (hd.symm.trans hph) nofun

theorem Linked.clientRefuse {status : ℤ} (h : Linked id v) (hph : v.phase = .asked) (hs : status < 0) :
    Linked id { v with phase := .gone, up := v.up ++ [.createResponse ⟨id, status⟩] } := by
  cases h with
  | fresh _ _ hn | pending _ _ _ _ _ hn | requested _ _ _ _ _ hn | refused _ _ _ _ hn | failed _ _ _ hn =>
    exact absurd (hn.symm.trans hph) nofun
  | accepted _ _ _ _ _ _ hf | opened _ _ _ _ _ hf =>
    obtain ⟨_, _, _, _, ⟨-, -, out, hn, -⟩ | ⟨-, hn, -⟩⟩ := hf.feeds
    all_goals exact absurd (hn.symm.trans hph) nofun
  | asked ho hc hst hr hd _ hup h₅ h₆ h₇ h₈ =>
    exact .refused ho hc hst hd rfl (congrArg (· ++ [_]) hup) hs h₅ h₆ h₇ h₈
  | dead ho hcl hn hd hp h₇ =>
    rcases hd with ⟨-, hd, -⟩ | hd | ⟨-, hd⟩
    · exact absurd hph hd
    · exact .dead ho hcl hn (.inr (.inl hd)) hp h₇
    · exact absurd (hd.symm.trans hph) nofun

/-- An answer to a request that the server took back. -/
theorem Linked.clientAnswerLate (h : Linked id v) (hph : v.phase = .late) (pdu : ClientPdu) :
    Linked id { v with phase := .gone, up := v.up ++ [pdu] } := by
  cases h with
  | fresh _ _ hn | pending _ _ _ _ _ hn | requested _ _ _ _ _ hn | asked _ _ _ _ _ hn | refused _ _ _ _ hn
  | failed _ _ _ hn => exact absurd (hn.symm.trans hph) nofun
  | accepted _ _ _ _ _ _ hf | opened _ _ _ _ _ hf =>
    obtain ⟨_, _, _, _, ⟨-, -, out, hn, -⟩ | ⟨-, hn, -⟩⟩ := hf.feeds
    all_goals exact absurd (hn.symm.trans hph) nofun
  | dead ho hcl hn hd hp h₇ =>
    rcases hd with ⟨hd, -⟩ | hd | ⟨-, hd⟩
    · exact .dead ho hcl hn (.inl ⟨hd, nofun, nofun⟩) hp h₇
    · exact .dead ho hcl hn (.inr (.inl hd)) hp h₇
    · exact absurd (hd.symm.trans hph) nofun

/-- **A fragment leaves the client**: whatever reassembler stands where the
client does takes it. -/
theorem Flow.emit {out' : Option Outgoing} {f : Frag} (h : Flow r frags last id v) (hph : v.phase = .held out)
    (hf : ∀ r : MessageReassembler, Matches r out → r.maxSize = v.limit →
      ∃ r₁, r.take f = (.ok o, r₁) ∧ r₁.maxSize = r.maxSize ∧ Matches r₁ out') (up : List ClientPdu) :
    last = [] ∧
      Flow r (frags ++ [f]) [] id { v with phase := .held out', up := up, sent := v.sent ++ o.toList } := by
  obtain ⟨ms, r', hfeed, hsent, ⟨hl, hmax, out₁, hn, hm⟩ | ⟨-, hn, -⟩⟩ := h.feeds
  · cases hn.symm.trans hph
    obtain ⟨r₁, ht, hmax₁, hm₁⟩ := hf r' hm hmax
    refine ⟨hl, ⟨ms ++ o.toList, r₁, hfeed.snoc ht, ?_, .inl ⟨rfl, hmax₁.trans hmax, out', rfl, hm₁⟩⟩⟩
    exact (append_assoc _ _ _).symm.trans (congrArg (· ++ o.toList) hsent)
  · exact absurd (hn.symm.trans hph) nofun

theorem Linked.clientFrag {out' : Option Outgoing} {f : Frag} (h : Linked id v) (hph : v.phase = .held out)
    (hf : ∀ r : MessageReassembler, Matches r out → r.maxSize = v.limit →
      ∃ r₁, r.take f = (.ok o, r₁) ∧ r₁.maxSize = r.maxSize ∧ Matches r₁ out') :
    Linked id { v with phase := .held out', up := v.up ++ [f.pdu id], sent := v.sent ++ o.toList } := by
  cases h with
  | fresh _ _ hn | pending _ _ _ _ _ hn | requested _ _ _ _ _ hn | asked _ _ _ _ _ hn | refused _ _ _ _ hn
  | failed _ _ _ hn => exact absurd (hn.symm.trans hph) nofun
  | accepted ho hc hst hd hs hup hfl h₇ h₈ =>
    obtain ⟨rfl, hfl'⟩ := hfl.emit hph hf (v.up ++ [f.pdu id])
    refine .accepted ho hc hst hd hs ?_ hfl' h₇ h₈
    simp [hup]
  | opened ho hc hst hd hup hfl h₇ h₈ =>
    obtain ⟨rfl, hfl'⟩ := hfl.emit hph hf (v.up ++ [f.pdu id])
    refine .opened ho hc hst hd ?_ hfl' h₇ h₈
    simp [hup]
  | dead ho hcl hn hd hp h₇ =>
    rcases hd with ⟨-, -, hd⟩ | hd | ⟨-, hd⟩
    · exact absurd hph (hd out)
    · exact .dead ho hcl hn (.inr (.inl hd)) (hp.trans (prefix_append _ _)) h₇
    · exact absurd (hd.symm.trans hph) nofun

theorem Flow.close (h : Flow r frags last id v) (hph : v.phase = .held out) (up : List ClientPdu) :
    last = [] ∧ Flow r frags [.common (.close ⟨id⟩)] id { v with phase := .gone, up := up, closed := True } := by
  obtain ⟨ms, r', hfeed, hsent, ⟨hl, -⟩ | ⟨-, hn, -⟩⟩ := h.feeds
  · exact ⟨hl, ⟨ms, r', hfeed, hsent, .inr ⟨rfl, rfl, trivial⟩⟩⟩
  · exact absurd (hn.symm.trans hph) nofun

theorem Linked.clientSendsClose (h : Linked id v) (hph : v.phase = .held out) :
    Linked id { v with phase := .gone, up := v.up ++ [.common (.close ⟨id⟩)], closed := True } := by
  cases h with
  | fresh _ _ hn | pending _ _ _ _ _ hn | requested _ _ _ _ _ hn | asked _ _ _ _ _ hn | refused _ _ _ _ hn
  | failed _ _ _ hn => exact absurd (hn.symm.trans hph) nofun
  | accepted ho hc hst hd hs hup hfl h₇ h₈ =>
    obtain ⟨rfl, hfl'⟩ := hfl.close hph (v.up ++ [.common (.close ⟨id⟩)])
    refine .accepted ho hc hst hd hs ?_ hfl' h₇ h₈
    simp [hup]
  | opened ho hc hst hd hup hfl h₇ h₈ =>
    obtain ⟨rfl, hfl'⟩ := hfl.close hph (v.up ++ [.common (.close ⟨id⟩)])
    refine .opened ho hc hst hd ?_ hfl' h₇ h₈
    simp [hup]
  | dead ho hcl hn hd hp h₇ =>
    rcases hd with ⟨hd, -⟩ | hd | ⟨-, hd⟩
    · exact .dead ho trivial hn (.inl ⟨hd, nofun, nofun⟩) hp h₇
    · exact .dead ho trivial hn (.inr (.inl hd)) hp h₇
    · exact absurd (hd.symm.trans hph) nofun

/-- The client answers a Close of the server. -/
theorem Linked.clientReply (h : Linked id v) (hr : v.replying) (pdu : ClientPdu) (again : Prop) :
    Linked id { v with up := v.up ++ [pdu], closed := True, replying := again } := by
  cases h with
  | fresh _ _ _ _ _ _ _ hn | pending _ _ _ _ _ _ _ _ _ _ hn | requested _ _ _ _ _ _ _ _ _ _ hn
  | asked _ _ _ _ _ _ _ _ _ _ hn | refused _ _ _ _ _ _ _ _ _ _ hn | accepted _ _ _ _ _ _ _ _ hn
  | opened _ _ _ _ _ _ _ hn | failed _ _ _ _ _ _ _ _ hn => exact absurd hr hn
  | dead ho hcl hn hd hp h₇ => exact .dead ho trivial hn hd hp h₇

/-! ### A channel with nothing on its way -/

theorem Linked.settled (h : Linked id v) (hu : v.up = []) (hcl : ¬ v.closed) : v.data = v.sent := by
  cases h with
  | fresh _ _ _ _ hd hs | pending _ _ _ _ _ _ _ hd hs | requested _ _ _ _ _ _ _ hd hs
  | asked _ _ _ _ _ _ _ hd hs | refused _ _ _ _ _ _ _ hd hs | failed _ _ _ _ _ hd hs => rw [hd, hs]
  | accepted _ _ _ _ _ hup => exact absurd (hup.symm.trans hu) nofun
  | @opened c frags last _ _ _ _ hup hf =>
    obtain ⟨ms, r', hfeed, hsent, _⟩ := hf.feeds
    have hnil := append_eq_nil_iff.mp (hup.symm.trans hu)
    rw [map_eq_nil_iff] at hnil
    obtain ⟨rfl, rfl⟩ := hnil
    cases hfeed
    rwa [append_nil] at hsent
  | dead _ h => exact absurd h hcl

theorem Linked.sameOpen (h : Linked id v) (hu : v.up = []) (hd : v.down = []) :
    (∃ c, v.chan = some c ∧ c.state = .opened) ↔ ∃ out, v.phase = .held out := by
  cases h with
  | fresh hc _ hp | failed _ hc _ hp =>
    rw [hc, hp]
    exact ⟨nofun, nofun⟩
  | pending _ hc hs _ _ hp | asked _ hc hs _ _ hp =>
    rw [hc, hp]
    refine ⟨?_, nofun⟩
    rintro ⟨c, hcc, h⟩
    cases hcc
    exact absurd (hs.symm.trans h) nofun
  | requested _ _ _ _ hn => exact absurd (hn.symm.trans hd) nofun
  | refused _ _ _ _ _ hup | accepted _ _ _ _ _ hup => exact absurd (hup.symm.trans hu) nofun
  | @opened c frags last _ hc hs _ hup hf =>
    refine ⟨fun _ => ?_, fun _ => ⟨c, hc, hs⟩⟩
    obtain ⟨ms, r', _, _, ⟨-, -, out, hn, -⟩ | ⟨hl, -⟩⟩ := hf.feeds
    · exact ⟨out, hn⟩
    · have hnil := append_eq_nil_iff.mp (hup.symm.trans hu)
      exact absurd (hl.symm.trans hnil.2) nofun
  | dead _ _ hc h =>
    rcases h with ⟨-, -, h⟩ | h | ⟨h, -⟩
    · rw [hc]
      exact ⟨nofun, fun ⟨out, hh⟩ => absurd hh (h out)⟩
    all_goals exact absurd (h.symm.trans hd) nofun

end Drdynvc
end Channels
end Farland
