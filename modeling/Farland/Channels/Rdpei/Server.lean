/-
# Touch and pen contacts

The server side of the input channel (`channels/rdpei_server.cpp`): the
SC_READY/CS_READY exchange, suspension, and the phase of every contact, turned
into validated contact actions. `events` holds every event so far, oldest
first; polling takes them from the front and nothing reads them.

`log` is not in the source: every contact that was emitted, newest first, with
the client's flags that made it (none when the server ended the contact
itself) and the limit that held. `Legal` says what each may do given the older
ones, and `Inv` connects the slots to the log.

Key theorems: `step_changed`, `run_transactions`.
-/
import Farland.Channels.Rdpei.Pdu

namespace Farland
namespace Channels
namespace Rdpei

open List

structure RdpeiServerConfig where
  protocolVersion : ℕ := v300
  supportedFeatures : ℕ := 0
  /-- On active touch contacts, whatever the client says. -/
  maxTouchContacts : ℕ := 32
  deriving DecidableEq

inductive ContactKind where
  | touch
  | pen
  deriving DecidableEq

inductive ContactAction where
  | down
  | move
  | up
  | cancel
  | hover
  | leave
  deriving DecidableEq

/-- A validated contact change. -/
structure Contact where
  kind : ContactKind
  action : ContactAction := .move
  id : Fin 256
  x : ℤ
  y : ℤ
  pressure : Option ℕ := none
  penFlags : ℕ := 0
  deriving DecidableEq

inductive Event where
  | ready (client : CsReady) (maxTouchContacts : ℕ) (pen multipen : Bool)
  | frame (contacts : List Contact)
  deriving DecidableEq

def Event.contacts : Event → List Contact
  | .ready .. => []
  | .frame contacts => contacts

inductive State where
  | idle
  | waitingCsReady
  | ready
  deriving DecidableEq

inductive Phase where
  | outOfRange
  | hovering
  | engaged
  deriving DecidableEq

structure Slot where
  phase : Phase := .outOfRange
  x : ℤ := 0
  y : ℤ := 0
  deriving DecidableEq

/-- A contact that was emitted, the flags it came from, and the limit of its kind. -/
structure Emitted where
  contact : Contact
  flags : Option ℕ
  limit : ℕ
  deriving DecidableEq

structure RdpeiServer where
  config : RdpeiServerConfig
  state : State := .idle
  suspended : Bool := false
  maxTouch : ℕ := 0
  multipen : Bool := false
  slots : ContactKind → Fin 256 → Slot := fun _ _ => {}
  output : List (List UInt8) := []
  events : List Event := []
  violations : ℕ := 0
  ignored : ℕ := 0
  log : List Emitted := []

def maxPens : ℕ := 4
def maxPressure : ℕ := 1024

namespace Flags

def down : ℕ := 0x0001
def update : ℕ := 0x0002
def up : ℕ := 0x0004
def inRange : ℕ := 0x0008
def inContact : ℕ := 0x0010
def canceled : ℕ := 0x0020

end Flags

open Flags in
/-- The target phase and action for each combination of flags, when the phase permits it. -/
def transition (flags : ℕ) (phase : Phase) : Option (Phase × ContactAction) :=
  if flags = down ||| inRange ||| inContact then
    if phase ≠ .engaged then some (.engaged, .down) else none
  else if flags = update ||| inRange ||| inContact then
    if phase = .engaged then some (.engaged, .move) else none
  else if flags = update ||| inRange then
    if phase ≠ .engaged then some (.hovering, .hover) else none
  else if flags = up ||| inRange then
    if phase = .engaged then some (.hovering, .up) else none
  else if flags = up then
    if phase = .engaged then some (.outOfRange, .up) else none
  else if flags = up ||| canceled then
    if phase = .engaged then some (.outOfRange, .cancel) else none
  else if flags = update ∨ flags = update ||| canceled then
    if phase = .hovering then some (.outOfRange, .leave) else none
  else none

/-- The end of a contact where it last was. -/
def Slot.ending (slot : Slot) (kind : ContactKind) (id : Fin 256) : Contact where
  kind := kind
  action := if slot.phase = .engaged then .cancel else .leave
  id := id
  x := slot.x
  y := slot.y

namespace RdpeiServer

variable (s : RdpeiServer)

def activeContacts (kind : ContactKind) : ℕ :=
  (List.finRange 256).countP fun id => (s.slots kind id).phase ≠ .outOfRange

def limit : ContactKind → ℕ
  | .touch => s.maxTouch
  | .pen => if s.multipen then maxPens else 1

def emit (contacts : List Contact) : RdpeiServer :=
  if contacts = [] then s else { s with events := s.events ++ [.frame contacts] }

def violate : RdpeiServer := { s with violations := (s.violations + 1) % 2 ^ 64 }

def ignore : RdpeiServer := { s with ignored := (s.ignored + 1) % 2 ^ 64 }

/-- The slot of a contact that changed. -/
def note (contact : Contact) (flags : Option ℕ) (phase : Phase) : RdpeiServer :=
  { s with
    slots := Function.update s.slots contact.kind
      (Function.update (s.slots contact.kind) contact.id ⟨phase, contact.x, contact.y⟩)
    log := ⟨contact, flags, s.limit contact.kind⟩ :: s.log }

/-- The server ends a contact, if it is in range. -/
def finish (kind : ContactKind) (id : Fin 256) : RdpeiServer × List Contact :=
  if (s.slots kind id).phase = .outOfRange then (s, [])
  else (s.note ((s.slots kind id).ending kind id) none .outOfRange, [(s.slots kind id).ending kind id])

/-- What the flags do to a contact; a new one beyond the limit is refused. -/
def next (contact : Contact) (flags : ℕ) : Option (Phase × ContactAction) :=
  if (s.slots contact.kind contact.id).phase = .outOfRange ∧ s.limit contact.kind ≤ s.activeContacts contact.kind then
    none
  else transition flags (s.slots contact.kind contact.id).phase

/-- Runs one contact through the state machine; a violation cancels its transaction. -/
def step (contact : Contact) (flags : ℕ) : RdpeiServer × List Contact :=
  match s.next contact flags with
  | some (phase, action) => (s.note { contact with action } (some flags) phase, [{ contact with action }])
  | none => s.violate.finish contact.kind contact.id

def steps (s : RdpeiServer) : List (Contact × ℕ) → RdpeiServer × List Contact
  | [] => (s, [])
  | (contact, flags) :: rest =>
    let (s, changes) := s.step contact flags
    let (s, more) := s.steps rest
    (s, changes ++ more)

def finishAll (s : RdpeiServer) : List (ContactKind × Fin 256) → RdpeiServer × List Contact
  | [] => (s, [])
  | (kind, id) :: rest =>
    let (s, changes) := s.finish kind id
    let (s, more) := s.finishAll rest
    (s, changes ++ more)

def allContacts : List (ContactKind × Fin 256) :=
  [ContactKind.touch, .pen].flatMap fun kind => (List.finRange 256).map fun id => (kind, id)

/-- Cancels every engaged contact and lets every hovering one leave. -/
def releaseAll : RdpeiServer :=
  let (s, released) := s.finishAll allContacts
  s.emit released

def start : RdpeiServer :=
  if s.state ≠ .idle then s
  else { s with
    output := s.output ++ [encodeServerPdu (.scReady ⟨s.config.protocolVersion,
      if v300 ≤ s.config.protocolVersion then some s.config.supportedFeatures else none⟩)]
    state := .waitingCsReady }

def suspend : RdpeiServer :=
  if s.state ≠ .ready ∨ s.suspended then s
  else { s with output := s.output ++ [encodeServerPdu .suspendInput], suspended := true }.releaseAll

def resume : RdpeiServer :=
  if !s.suspended then s
  else { s with output := s.output ++ [encodeServerPdu .resumeInput], suspended := false }

/-- The server becomes ready; a client without a touch digitizer may say 0. -/
def agree (pdu : CsReady) : RdpeiServer :=
  let maxTouch := max 1 (min pdu.maxTouchContacts (max s.config.maxTouchContacts 1))
  let multipen := decide (s.config.supportedFeatures &&& multipenInjectionSupported ≠ 0 ∧
    pdu.flags &&& enableMultipenInjection ≠ 0 ∧ v300 ≤ s.config.protocolVersion)
  { s with
    state := .ready, maxTouch, multipen
    events := s.events ++ [.ready pdu maxTouch (v200 ≤ s.config.protocolVersion) multipen] }

def applyCsReady (pdu : CsReady) : RdpeiServer :=
  if s.state = .idle then s.ignore
  else if s.state = .ready then s.releaseAll.agree pdu
  else s.agree pdu

def touchContact (c : TouchContact) : Contact × ℕ :=
  ({ kind := .touch, id := Fin.ofNat 256 c.contactId, x := c.x, y := c.y, pressure := c.pressure.map (min · maxPressure) },
    c.contactFlags)

def penContact (c : PenContact) : Contact × ℕ :=
  ({ kind := .pen, id := Fin.ofNat 256 c.deviceId, x := c.x, y := c.y, pressure := c.pressure.map (min · maxPressure)
     penFlags := c.penFlags.getD 0 }, c.contactFlags)

def touchFrame (frame : Frame TouchContact) : RdpeiServer :=
  let (s, changes) := s.steps (frame.contacts.map touchContact)
  s.emit changes

def applyTouch (event : InputEvent TouchContact) : RdpeiServer :=
  if s.state ≠ .ready ∨ s.suspended then s.ignore else event.frames.foldl touchFrame s

/-- Without multipen the deviceId must be 0. -/
def penSteps (s : RdpeiServer) : List PenContact → RdpeiServer × List Contact
  | [] => (s, [])
  | c :: rest =>
    if c.deviceId ≠ 0 ∧ !s.multipen then s.violate.penSteps rest
    else
      let (s, changes) := s.step (penContact c).1 (penContact c).2
      let (s, more) := s.penSteps rest
      (s, changes ++ more)

def penFrame (frame : Frame PenContact) : RdpeiServer :=
  let (s, changes) := s.penSteps frame.contacts
  s.emit changes

def applyPen (event : InputEvent PenContact) : RdpeiServer :=
  if s.state ≠ .ready ∨ s.suspended ∨ s.config.protocolVersion < v200 then s.ignore else event.frames.foldl penFrame s

/-- Only a hovering contact is affected. -/
def applyDismiss (contactId : ℕ) : RdpeiServer :=
  if s.state ≠ .ready then s.ignore
  else if (s.slots .touch (Fin.ofNat 256 contactId)).phase ≠ .hovering then s
  else
    let (s, changes) := s.finish .touch (Fin.ofNat 256 contactId)
    s.emit changes

def apply : ClientPdu → RdpeiServer
  | .csReady pdu => s.applyCsReady pdu
  | .touch event => s.applyTouch event
  | .dismissHoveringContact contactId => s.applyDismiss contactId
  | .pen event => s.applyPen event

/-- A reassembled channel message. -/
def receive (message : List UInt8) : RdpeiServer × Result Unit :=
  match decodeMessage message with
  | .ok pdus => (pdus.foldl apply s, .ok ())
  | .error e => (s, .error e)

end RdpeiServer

/-! ### The life cycle -/

/-- The phase a contact is in after what was emitted. -/
def Emitted.phase (e : Emitted) : Phase :=
  match e.contact.action with
  | .down | .move => .engaged
  | .hover => .hovering
  | .cancel | .leave => .outOfRange
  | .up => if e.flags = some (Flags.up ||| Flags.inRange) then .hovering else .outOfRange

variable (log : List Emitted) (kind : ContactKind)

/-- What was emitted last for a contact. -/
def last (id : Fin 256) : Option Emitted :=
  log.find? fun e => e.contact.kind == kind && e.contact.id == id

def phaseOf (id : Fin 256) : Phase :=
  (last log kind id).elim .outOfRange Emitted.phase

/-- The contacts of a kind that are in range. -/
def inRangeOf : ℕ :=
  (List.finRange 256).countP fun id => phaseOf log kind id ≠ .outOfRange

def Permits : ContactAction → Phase → Prop
  | .down, phase | .hover, phase => phase ≠ .engaged
  | .move, phase | .up, phase | .cancel, phase => phase = .engaged
  | .leave, phase => phase = .hovering

/-- What may be emitted after the older ones. -/
structure Legal (older : List Emitted) (e : Emitted) : Prop where
  cycle : Permits e.contact.action (phaseOf older e.contact.kind e.contact.id)
  /-- The server itself only ends contacts, where they were last. -/
  server : e.flags = none → (e.contact.action = .cancel ∨ e.contact.action = .leave) ∧
    ∃ l, last older e.contact.kind e.contact.id = some l ∧ e.contact.x = l.contact.x ∧ e.contact.y = l.contact.y
  inRange : inRangeOf (e :: older) e.contact.kind ≤ e.limit

namespace RdpeiServer

/-- The slots are what the log says, and the log is legal. -/
structure Inv (s : RdpeiServer) : Prop where
  phase : ∀ kind id, (s.slots kind id).phase = phaseOf s.log kind id
  place : ∀ kind id, (s.slots kind id).phase ≠ .outOfRange →
    ∃ l, last s.log kind id = some l ∧ (s.slots kind id).x = l.contact.x ∧ (s.slots kind id).y = l.contact.y
  active : ∀ kind, s.activeContacts kind ≤ s.limit kind
  legal : ∀ e older, e :: older <:+ s.log → Legal older e
  started : s.state ≠ .ready → ∀ kind id, (s.slots kind id).phase = .outOfRange

/-- Everything emitted is in the events. -/
def Told (s : RdpeiServer) : Prop := s.events.flatMap Event.contacts = (s.log.map Emitted.contact).reverse

/-- The contacts `changes` were emitted, and nothing else has happened. -/
structure Changed (s s' : RdpeiServer) (changes : List Contact) : Prop where
  inv : Inv s'
  log : s'.log.map Emitted.contact = changes.reverse ++ s.log.map Emitted.contact
  events : s'.events = s.events
  state : s'.state = s.state

/-! ### Counting -/

/-- Two counts over different elements that differ at one of them. -/
theorem countP_le_succ {α : Type} [DecidableEq α] {p q : α → Bool} {i : α} (h : ∀ a, a ≠ i → q a = p a) :
    ∀ l : List α, l.Nodup → l.countP q ≤ l.countP p + 1
  | [], _ => Nat.zero_le _
  | a :: l, hl => by
    obtain ⟨ha, hl⟩ := nodup_cons.mp hl
    by_cases hai : a = i
    · subst hai
      have hsame : l.countP q = l.countP p :=
        countP_congr fun b hb => by rw [h b fun hba => ha (hba ▸ hb)]
      rw [countP_cons, countP_cons, hsame]
      split_ifs <;> omega
    · have ih := countP_le_succ h l hl
      rw [countP_cons, countP_cons, h a hai]
      omega

theorem last_cons (e : Emitted) (older : List Emitted) (kind : ContactKind) (id : Fin 256) :
    last (e :: older) kind id =
      if e.contact.kind = kind ∧ e.contact.id = id then some e else last older kind id := by
  unfold last
  by_cases h : e.contact.kind = kind ∧ e.contact.id = id
  · simp [h.1, h.2]
  · rw [if_neg h]
    have hfalse : (e.contact.kind == kind && e.contact.id == id) = false := by
      simpa using h
    rw [find?_cons_of_neg (by simp [hfalse])]

section

variable {s : RdpeiServer}

theorem slots_note (contact : Contact) (flags : Option ℕ) (phase : Phase) (kind : ContactKind) (id : Fin 256) :
    (s.note contact flags phase).slots kind id =
      if contact.kind = kind ∧ contact.id = id then ⟨phase, contact.x, contact.y⟩ else s.slots kind id := by
  unfold note
  dsimp only
  by_cases hkind : contact.kind = kind
  · subst hkind
    rw [Function.update_self]
    by_cases hid : contact.id = id
    · subst hid
      rw [Function.update_self, if_pos ⟨rfl, rfl⟩]
    · rw [Function.update_of_ne (Ne.symm hid), if_neg fun hboth => hid hboth.2]
  · rw [Function.update_of_ne (Ne.symm hkind), if_neg fun hboth => hkind hboth.1]

/-- A contact that comes into range takes a place that was free. -/
theorem activeContacts_note_le (h : Inv s) {contact : Contact} (flags : Option ℕ) {phase : Phase}
    (hroom : phase ≠ .outOfRange → (s.slots contact.kind contact.id).phase = .outOfRange →
      s.activeContacts contact.kind < s.limit contact.kind) (kind : ContactKind) :
    (s.note contact flags phase).activeContacts kind ≤ s.limit kind := by
  have hactive := h.active kind
  unfold activeContacts at *
  by_cases hkind : contact.kind = kind
  · subst hkind
    by_cases hnew : phase ≠ .outOfRange ∧ (s.slots contact.kind contact.id).phase = .outOfRange
    · have hfree := hroom hnew.1 hnew.2
      have hone := countP_le_succ (p := fun id => decide ((s.slots contact.kind id).phase ≠ .outOfRange))
        (q := fun id => decide (((s.note contact flags phase).slots contact.kind id).phase ≠ .outOfRange))
        (i := contact.id) (fun id hid => by rw [slots_note, if_neg fun hboth => hid hboth.2.symm])
        (List.finRange 256) (nodup_finRange 256)
      omega
    · refine (countP_mono_left fun id _ hid => ?_).trans hactive
      rw [slots_note] at hid
      by_cases hsame : contact.id = id
      · subst hsame
        simp only [decide_eq_true_eq] at hid ⊢
        exact fun hout => hnew ⟨hid, hout⟩
      · rwa [if_neg fun hboth => hsame hboth.2] at hid
  · refine Nat.le_trans (Nat.le_of_eq (countP_congr fun id _ => ?_)) hactive
    rw [slots_note, if_neg fun hboth => hkind hboth.1]

/-- **One legal change keeps the invariant.** -/
theorem Inv.note (h : Inv s) {contact : Contact} {flags : Option ℕ} {phase : Phase} (hready : s.state = .ready)
    (hphase : Emitted.phase ⟨contact, flags, s.limit contact.kind⟩ = phase)
    (hpermits : Permits contact.action (s.slots contact.kind contact.id).phase)
    (hserver : flags = none → contact = (s.slots contact.kind contact.id).ending contact.kind contact.id ∧
      (s.slots contact.kind contact.id).phase ≠ .outOfRange)
    (hroom : phase ≠ .outOfRange → (s.slots contact.kind contact.id).phase = .outOfRange →
      s.activeContacts contact.kind < s.limit contact.kind) : Inv (s.note contact flags phase) := by
  have hactive := activeContacts_note_le h flags hroom
  have hphases : ∀ kind id, ((s.note contact flags phase).slots kind id).phase =
      phaseOf (s.note contact flags phase).log kind id := by
    intro kind id
    rw [slots_note]
    change _ = (last (⟨contact, flags, s.limit contact.kind⟩ :: s.log) kind id).elim _ _
    rw [last_cons]
    by_cases hthis : contact.kind = kind ∧ contact.id = id
    · rw [if_pos hthis, if_pos hthis, Option.elim_some, hphase]
    · rw [if_neg hthis, if_neg hthis]
      exact h.phase kind id
  refine ⟨hphases, ?_, hactive, ?_, fun hnot => absurd hready hnot⟩
  · intro kind id hin
    change ∃ l, last (⟨contact, flags, s.limit contact.kind⟩ :: s.log) kind id = some l ∧ _
    rw [slots_note] at hin ⊢
    rw [last_cons]
    by_cases hthis : contact.kind = kind ∧ contact.id = id
    · rw [if_pos hthis, if_pos hthis]
      exact ⟨_, rfl, rfl, rfl⟩
    · rw [if_neg hthis] at hin
      rw [if_neg hthis, if_neg hthis]
      exact h.place kind id hin
  · intro e older hsuffix
    rcases suffix_cons_iff.mp hsuffix with heq | hsuffix
    · obtain ⟨rfl, rfl⟩ := List.cons.inj heq
      refine ⟨?_, fun hnone => ?_, ?_⟩
      · rw [← h.phase]
        exact hpermits
      · obtain ⟨hending, hin⟩ := hserver hnone
        obtain ⟨l, hl, hx, hy⟩ := h.place contact.kind contact.id hin
        refine ⟨?_, l, hl, ?_, ?_⟩
        · rw [hending]
          unfold Slot.ending
          split_ifs
          · exact .inl rfl
          · exact .inr rfl
        · rw [hending]
          exact hx
        · rw [hending]
          exact hy
      · have hcount : Rdpei.inRangeOf (⟨contact, flags, s.limit contact.kind⟩ :: s.log) contact.kind =
            (s.note contact flags phase).activeContacts contact.kind := by
          unfold Rdpei.inRangeOf activeContacts
          exact countP_congr fun id _ => by rw [hphases]; rfl
        rw [hcount]
        exact hactive contact.kind
    · exact h.legal e older hsuffix

/-! ### Changes -/

theorem Changed.refl (h : Inv s) : Changed s s [] := ⟨h, rfl, rfl, rfl⟩

theorem Changed.trans {s₁ s₂ : RdpeiServer} {changes more : List Contact} (h : Changed s s₁ changes)
    (h' : Changed s₁ s₂ more) : Changed s s₂ (changes ++ more) where
  inv := h'.inv
  log := by rw [h'.log, h.log, reverse_append, append_assoc]
  events := h'.events.trans h.events
  state := h'.state.trans h.state

theorem Inv.violate (h : Inv s) : Inv s.violate := ⟨h.phase, h.place, h.active, h.legal, h.started⟩

theorem Inv.ready (h : Inv s) {kind : ContactKind} {id : Fin 256} (hin : (s.slots kind id).phase ≠ .outOfRange) :
    s.state = .ready := by
  by_contra hnot
  exact hin (h.started hnot kind id)

/-- The server ends a contact only in range, and as its phase permits. -/
theorem finish_changed (h : Inv s) (kind : ContactKind) (id : Fin 256) :
    Changed s (s.finish kind id).1 (s.finish kind id).2 := by
  unfold finish
  by_cases hout : (s.slots kind id).phase = .outOfRange
  · rw [if_pos hout]
    exact .refl h
  · rw [if_neg hout]
    refine ⟨h.note (h.ready hout) ?_ ?_ (fun _ => ⟨rfl, hout⟩) (fun hin => absurd rfl hin), rfl, rfl, rfl⟩
    · unfold Emitted.phase Slot.ending
      split_ifs <;> rfl
    · change Permits (if (s.slots kind id).phase = .engaged then .cancel else .leave) (s.slots kind id).phase
      cases hphase : (s.slots kind id).phase with
      | outOfRange => exact absurd hphase hout
      | hovering | engaged => rfl

theorem transition_spec {flags : ℕ} {phase target : Phase} {action : ContactAction}
    (h : transition flags phase = some (target, action)) (contact : Contact) (limit : ℕ) :
    Permits action phase ∧ Emitted.phase ⟨{ contact with action }, some flags, limit⟩ = target := by
  unfold transition at h
  split_ifs at h with h1 h2 h3 h4 h5 h6 h7 h8 h9 h10 h11 h12 h13 h14 <;> cases h <;>
    simp_all [Permits, Emitted.phase]

/-- **One contact through the state machine.** -/
theorem step_changed (h : Inv s) (hready : s.state = .ready) (contact : Contact) (flags : ℕ) :
    Changed s (s.step contact flags).1 (s.step contact flags).2 := by
  unfold step
  cases hnext : s.next contact flags with
  | none =>
    have hchanged := finish_changed h.violate contact.kind contact.id
    exact ⟨hchanged.inv, hchanged.log, hchanged.events, hchanged.state⟩
  | some target =>
    unfold next at hnext
    split_ifs at hnext with hfull
    obtain ⟨hpermits, hphase⟩ := transition_spec hnext contact (s.limit contact.kind)
    refine ⟨h.note hready hphase hpermits (fun hnone => by cases hnone) ?_, rfl, rfl, rfl⟩
    intro _ hout
    exact Nat.lt_of_not_le fun hle => hfull ⟨hout, hle⟩

theorem steps_changed : ∀ {s : RdpeiServer} (_ : Inv s) (_ : s.state = .ready) (contacts : List (Contact × ℕ)),
    Changed s (s.steps contacts).1 (s.steps contacts).2
  | _, h, _, [] => .refl h
  | _, h, hready, (contact, flags) :: rest => by
    have hone := step_changed h hready contact flags
    exact hone.trans (steps_changed hone.inv (hone.state.trans hready) rest)

theorem penSteps_changed : ∀ {s : RdpeiServer} (_ : Inv s) (_ : s.state = .ready) (contacts : List PenContact),
    Changed s (s.penSteps contacts).1 (s.penSteps contacts).2
  | _, h, _, [] => .refl h
  | s, h, hready, c :: rest => by
    unfold penSteps
    by_cases hid : c.deviceId ≠ 0 ∧ !s.multipen
    · rw [if_pos hid]
      have hrest := penSteps_changed h.violate hready rest
      exact ⟨hrest.inv, hrest.log, hrest.events, hrest.state⟩
    · rw [if_neg hid]
      have hone := step_changed h hready (penContact c).1 (penContact c).2
      exact hone.trans (penSteps_changed hone.inv (hone.state.trans hready) rest)

theorem finishAll_changed : ∀ {s : RdpeiServer} (_ : Inv s) (contacts : List (ContactKind × Fin 256)),
    Changed s (s.finishAll contacts).1 (s.finishAll contacts).2
  | _, h, [] => .refl h
  | _, h, (kind, id) :: rest => by
    have hone := finish_changed h kind id
    exact hone.trans (finishAll_changed hone.inv rest)

/-- A contact that the server ends is out of range, and nothing comes into range. -/
theorem finish_out (kind kind' : ContactKind) (id id' : Fin 256)
    (h : (kind, id) = (kind', id') ∨ (s.slots kind' id').phase = .outOfRange) :
    ((s.finish kind id).1.slots kind' id').phase = .outOfRange := by
  unfold finish
  by_cases hout : (s.slots kind id).phase = .outOfRange
  · rw [if_pos hout]
    rcases h with heq | h
    · obtain ⟨rfl, rfl⟩ := Prod.mk.inj heq
      exact hout
    · exact h
  · rw [if_neg hout, slots_note]
    by_cases hthis : kind = kind' ∧ id = id'
    · exact congrArg Slot.phase (if_pos hthis)
    · refine (congrArg Slot.phase (if_neg hthis)).trans ?_
      rcases h with heq | h
      · exact absurd (Prod.mk.inj heq) hthis
      · exact h

theorem finishAll_out : ∀ {s : RdpeiServer} (contacts : List (ContactKind × Fin 256)) (kind : ContactKind) (id : Fin 256),
    (kind, id) ∈ contacts ∨ (s.slots kind id).phase = .outOfRange →
    ((s.finishAll contacts).1.slots kind id).phase = .outOfRange
  | _, [], kind, id, h => h.resolve_left (by simp)
  | s, (kind', id') :: rest, kind, id, h => by
    apply finishAll_out rest kind id
    rcases h with hmem | hout
    · rcases mem_cons.mp hmem with heq | hmem
      · exact .inr (finish_out kind' kind id' id (.inl heq.symm))
      · exact .inl hmem
    · exact .inr (finish_out kind' kind id' id (.inr hout))

theorem mem_allContacts (kind : ContactKind) (id : Fin 256) : (kind, id) ∈ allContacts := by
  unfold allContacts
  cases kind <;> simp

/-! ### Calls -/

/-- What every call keeps. -/
structure Good (s : RdpeiServer) : Prop where
  inv : Inv s
  told : Told s

theorem Changed.emit {s' : RdpeiServer} {changes : List Contact} (h : Changed s s' changes) (htold : Told s) :
    Good (s'.emit changes) := by
  unfold RdpeiServer.emit
  by_cases hnone : changes = []
  · rw [if_pos hnone]
    refine ⟨h.inv, ?_⟩
    rw [Told, h.events, h.log, hnone]
    exact htold
  · rw [if_neg hnone]
    refine ⟨⟨h.inv.phase, h.inv.place, h.inv.active, h.inv.legal, h.inv.started⟩, ?_⟩
    have hevents : (s'.events ++ [Event.frame changes]).flatMap Event.contacts =
        s.events.flatMap Event.contacts ++ changes := by
      rw [h.events]
      simp [Event.contacts]
    unfold Told at htold ⊢
    change (s'.events ++ [Event.frame changes]).flatMap Event.contacts = (s'.log.map Emitted.contact).reverse
    rw [hevents, htold, h.log, reverse_append, reverse_reverse]

theorem emit_slots (changes : List Contact) : (s.emit changes).slots = s.slots := by
  unfold RdpeiServer.emit
  split_ifs <;> rfl

theorem emit_state (changes : List Contact) : (s.emit changes).state = s.state := by
  unfold RdpeiServer.emit
  split_ifs <;> rfl

theorem releaseAll_eq : s.releaseAll = (s.finishAll allContacts).1.emit (s.finishAll allContacts).2 := by
  unfold RdpeiServer.releaseAll
  generalize s.finishAll allContacts = finished
  rfl

theorem Good.releaseAll (h : Good s) : Good s.releaseAll := by
  rw [releaseAll_eq]
  exact (finishAll_changed h.inv allContacts).emit h.told

/-- **Nothing is in range after a release.** -/
theorem releaseAll_out (kind : ContactKind) (id : Fin 256) : (s.releaseAll.slots kind id).phase = .outOfRange := by
  rw [releaseAll_eq, emit_slots]
  exact finishAll_out allContacts kind id (.inl (mem_allContacts kind id))

theorem Good.ignore (h : Good s) : Good s.ignore :=
  ⟨⟨h.inv.phase, h.inv.place, h.inv.active, h.inv.legal, h.inv.started⟩, h.told⟩

/-- The limits may change while nothing is in range. -/
theorem Good.agree (h : Good s) (hout : ∀ kind id, (s.slots kind id).phase = .outOfRange) (pdu : CsReady) :
    Good (s.agree pdu) := by
  refine ⟨⟨h.inv.phase, h.inv.place, fun kind => ?_, h.inv.legal, fun _ => hout⟩, ?_⟩
  · have hnone : (s.agree pdu).activeContacts kind = 0 := by
      unfold activeContacts
      rw [countP_eq_zero]
      intro id _
      have hid : ((s.agree pdu).slots kind id).phase = .outOfRange := hout kind id
      simp [hid]
    rw [hnone]
    exact Nat.zero_le _
  · have htold := h.told
    unfold Told at htold ⊢
    change (s.events ++ [Event.ready _ _ _ _]).flatMap Event.contacts = (s.log.map Emitted.contact).reverse
    rw [flatMap_append, htold]
    simp [Event.contacts]

theorem Good.applyCsReady (h : Good s) (pdu : CsReady) : Good (s.applyCsReady pdu) := by
  unfold RdpeiServer.applyCsReady
  by_cases hidle : s.state = .idle
  · rw [if_pos hidle]
    exact h.ignore
  · rw [if_neg hidle]
    by_cases hready : s.state = .ready
    · rw [if_pos hready]
      exact h.releaseAll.agree releaseAll_out pdu
    · rw [if_neg hready]
      exact h.agree (h.inv.started hready) pdu

/-- Frames, one after the other. -/
theorem good_foldl {α : Type} {f : RdpeiServer → α → RdpeiServer}
    (hf : ∀ s a, Good s → s.state = .ready → Good (f s a) ∧ (f s a).state = .ready) :
    ∀ (l : List α) {s : RdpeiServer}, Good s → s.state = .ready → Good (l.foldl f s)
  | [], _, h, _ => h
  | a :: l, s, h, hready => by
    obtain ⟨hgood, hstill⟩ := hf s a h hready
    exact good_foldl hf l hgood hstill

theorem touchFrame_good (h : Good s) (hready : s.state = .ready) (frame : Frame TouchContact) :
    Good (s.touchFrame frame) ∧ (s.touchFrame frame).state = .ready := by
  have hchanged := steps_changed h.inv hready (frame.contacts.map touchContact)
  exact ⟨hchanged.emit h.told, (emit_state _).trans (hchanged.state.trans hready)⟩

theorem penFrame_good (h : Good s) (hready : s.state = .ready) (frame : Frame PenContact) :
    Good (s.penFrame frame) ∧ (s.penFrame frame).state = .ready := by
  have hchanged := penSteps_changed h.inv hready frame.contacts
  exact ⟨hchanged.emit h.told, (emit_state _).trans (hchanged.state.trans hready)⟩

theorem Good.apply (h : Good s) (pdu : ClientPdu) : Good (s.apply pdu) := by
  cases pdu with
  | csReady pdu => exact h.applyCsReady pdu
  | touch event =>
    change Good (if s.state ≠ .ready ∨ s.suspended = true then s.ignore else event.frames.foldl touchFrame s)
    by_cases hnot : s.state ≠ .ready ∨ s.suspended = true
    · rw [if_pos hnot]
      exact h.ignore
    · rw [if_neg hnot]
      push Not at hnot
      exact good_foldl (fun s a hs hready => touchFrame_good hs hready a) event.frames h hnot.1
  | pen event =>
    change Good (if s.state ≠ .ready ∨ s.suspended = true ∨ s.config.protocolVersion < v200 then s.ignore
      else event.frames.foldl penFrame s)
    by_cases hnot : s.state ≠ .ready ∨ s.suspended = true ∨ s.config.protocolVersion < v200
    · rw [if_pos hnot]
      exact h.ignore
    · rw [if_neg hnot]
      push Not at hnot
      exact good_foldl (fun s a hs hready => penFrame_good hs hready a) event.frames h hnot.1
  | dismissHoveringContact contactId =>
    change Good (s.applyDismiss contactId)
    unfold applyDismiss
    by_cases hready : s.state ≠ .ready
    · rw [if_pos hready]
      exact h.ignore
    · rw [if_neg hready]
      by_cases hhovering : (s.slots .touch (Fin.ofNat 256 contactId)).phase ≠ .hovering
      · rw [if_pos hhovering]
        exact h
      · rw [if_neg hhovering]
        exact (finish_changed h.inv .touch (Fin.ofNat 256 contactId)).emit h.told

theorem Good.receive (h : Good s) (message : List UInt8) : Good (s.receive message).1 := by
  unfold RdpeiServer.receive
  cases decodeMessage message with
  | error e => exact h
  | ok pdus =>
    induction pdus generalizing s with
    | nil => exact h
    | cons pdu pdus ih => exact ih (h.apply pdu)

/-- **A message with a malformed PDU changes nothing.** -/
theorem receive_malformed {message : List UInt8} (h : ¬ ∃ pdus, WellFormed message pdus) :
    (s.receive message).1 = s := by
  unfold RdpeiServer.receive
  cases hdecoded : decodeMessage message with
  | error e => rfl
  | ok pdus => exact absurd ⟨pdus, decodeMessage_ok.mp hdecoded⟩ h

theorem Good.start (h : Good s) : Good s.start := by
  unfold RdpeiServer.start
  by_cases hidle : s.state ≠ .idle
  · rw [if_pos hidle]
    exact h
  · rw [if_neg hidle]
    push Not at hidle
    refine ⟨⟨h.inv.phase, h.inv.place, h.inv.active, h.inv.legal, fun _ => ?_⟩, h.told⟩
    exact h.inv.started (by rw [hidle]; decide)

theorem Good.suspend (h : Good s) : Good s.suspend := by
  unfold RdpeiServer.suspend
  by_cases hnot : s.state ≠ .ready ∨ s.suspended = true
  · rw [if_pos hnot]
    exact h
  · rw [if_neg hnot]
    apply Good.releaseAll
    exact ⟨⟨h.inv.phase, h.inv.place, h.inv.active, h.inv.legal, h.inv.started⟩, h.told⟩

theorem Good.resume (h : Good s) : Good s.resume := by
  unfold RdpeiServer.resume
  by_cases hnot : (!s.suspended) = true
  · rw [if_pos hnot]
    exact h
  · rw [if_neg hnot]
    exact ⟨⟨h.inv.phase, h.inv.place, h.inv.active, h.inv.legal, h.inv.started⟩, h.told⟩

end

/-! ### Runs -/

inductive Call where
  | start
  | receive (message : List UInt8)
  | suspend
  | resume
  | releaseAll
  deriving DecidableEq

def call (s : RdpeiServer) : Call → RdpeiServer
  | .start => s.start
  | .receive message => (s.receive message).1
  | .suspend => s.suspend
  | .resume => s.resume
  | .releaseAll => s.releaseAll

variable (config : RdpeiServerConfig)

def run (calls : List Call) : RdpeiServer := calls.foldl call { config }

theorem good_new : Good { config } := by
  have hnone : ∀ kind, ({ config } : RdpeiServer).activeContacts kind = 0 := by
    intro kind
    unfold activeContacts
    rw [countP_eq_zero]
    intro id _
    simp
  refine ⟨⟨fun _ _ => rfl, fun _ _ h => absurd rfl h, fun kind => (hnone kind).trans_le (Nat.zero_le _), ?_,
    fun _ _ _ => rfl⟩, rfl⟩
  intro e older h
  exact absurd (suffix_nil.mp h) (by simp)

theorem Good.call (h : Good s) (c : Call) : Good (s.call c) := by
  cases c with
  | start => exact h.start
  | receive message => exact h.receive message
  | suspend => exact h.suspend
  | resume => exact h.resume
  | releaseAll => exact h.releaseAll

theorem run_good (calls : List Call) : Good (run config calls) := by
  unfold run
  induction calls using List.reverseRecOn with
  | nil => exact good_new config
  | append_singleton calls c ih =>
    rw [foldl_append]
    exact ih.call c

/-- What holds after any calls. -/
structure Transactions (s : RdpeiServer) : Prop where
  /-- Everything emitted was legal when it was emitted. -/
  legal : ∀ e older, e :: older <:+ s.log → Legal older e
  /-- The events hold exactly what was emitted. -/
  told : s.events.flatMap Event.contacts = (s.log.map Emitted.contact).reverse
  /-- A contact is in the phase that what was emitted left it in. -/
  phase : ∀ kind id, (s.slots kind id).phase = phaseOf s.log kind id
  inRange : ∀ kind, s.activeContacts kind ≤ s.limit kind
  malformed : ∀ message, (¬ ∃ pdus, WellFormed message pdus) → (s.receive message).1 = s

/-- **Touch and pen contacts form legal transactions.** -/
theorem run_transactions (config : RdpeiServerConfig) (calls : List Call) : Transactions (run config calls) := by
  have h := run_good config calls
  exact ⟨h.inv.legal, h.told, h.inv.phase, h.inv.active, fun message => receive_malformed⟩

/-- **After any calls** a contact in range is where it was emitted last, and
only a server that is ready has one. -/
theorem run_placed (config : RdpeiServerConfig) (calls : List Call) (kind : ContactKind) (id : Fin 256) :
    let s := run config calls
    (s.slots kind id).phase = .outOfRange ∨ s.state = .ready ∧ ∃ l, last s.log kind id = some l ∧
      (s.slots kind id).x = l.contact.x ∧ (s.slots kind id).y = l.contact.y := by
  intro s
  have hinv := (run_good config calls).inv
  by_cases h : (s.slots kind id).phase = .outOfRange
  · exact .inl h
  · exact .inr ⟨by_contra fun hnot => h (hinv.started hnot kind id), hinv.place kind id h⟩

end RdpeiServer
end Rdpei
end Channels
end Farland
