/-
# Connection numbers

`accept_client` numbers the clients from 1, and `ask_the_seat` numbers the
logins at the machine from `seat_connection_bit`. After a restart the agents
tell in their Stats which clients they serve, and the counter is raised past
what they tell: to whatever a session's own user has its agent report, plus
one, in 64 bits.

`Numbering` says how a history and the two counters belong together. It holds
along every run (`numbered_fine`), and the rest is about histories alone: the
numbers stay apart as long as no report is followed by so many clients that
their numbers run into those of the logins (`Modest`).

Key theorems: `run_keptApart`, `report_reaches_seats`.
-/
import Farland.Daemon.Writes
import Farland.Lib.History

namespace Farland
namespace Daemon

open Server Server.Broker List

/-! ### Histories -/

variable (log : List Entry)

/-- How many clients came. -/
def accepts : ℕ := log.countP fun e => match e with
  | .accepted _ => true
  | _ => false

/-- How many logins at the machine were asked about. -/
def seats : ℕ := log.countP fun e => match e with
  | .seatAsked _ _ => true
  | _ => false

/-- The numbers of their questions, in order. -/
def seatNumbers : List ℕ := log.filterMap fun e => match e with
  | .seatAsked c _ => some c
  | _ => none

/-- The cookies of the logins that came to the gate, in order. -/
def loginCookies : List ℕ := log.filterMap fun e => match e with
  | .login cookie => some cookie
  | _ => none

/-- The numbers of the clients, in order. -/
def acceptedNumbers : List ℕ := log.filterMap fun e => match e with
  | .accepted c => some c
  | _ => none

/-- Fewer than 2^62 clients come, at most 2^63 logins are asked about, and no
report is so close to the logins' numbers that the clients after it get there.
The report of 2^64 - 1 raises nothing. -/
structure Modest (log : List Entry) : Prop where
  clients : accepts log < 2 ^ 62
  logins : seats log ≤ 2 ^ 63
  reports : ∀ before session r after, log = before ++ .reported session r :: after → r ≠ 2 ^ 64 - 1 →
    0 < accepts after → r + accepts after < 2 ^ 63

/-- The numbers that `accept_client` gives out are apart from all others, and
no message names 0. -/
structure KeptApart (log : List Entry) : Prop where
  nonzero : ∀ c, .accepted c ∈ log → c ≠ 0
  below : ∀ c, .accepted c ∈ log → c < seatConnectionBit
  distinct : (acceptedNumbers log).Nodup
  seat : ∀ c c' cookie, .accepted c ∈ log → .seatAsked c' cookie ∈ log → c ≠ c'
  reported : ∀ before c after session r, log = before ++ .accepted c :: after → .reported session r ∈ before → c ≠ r
  /-- No client's resolution is taken for a login's. -/
  settled : ∀ r, .settled r true ∈ log → .accepted r.connection ∉ log
  /-- `encode_body` does not assert. -/
  encoded : ∀ session m, ((∃ holder, .sent session m holder ∈ log) ∨ .unreached session m ∈ log) → m.names ≠ some 0

/-- `next_connection`, `next_seat_connection` and the gate's next cookie. -/
structure Counters where
  connection : ℕ := 1
  seat : ℕ := seatConnectionBit
  cookie : ℕ := 1

/-- What an entry does to the counters. -/
def Counters.after (n : Counters) : Entry → Counters
  | .accepted _ => { n with connection := (n.connection + 1) % 2 ^ 64 }
  | .reported _ r => { n with connection := max n.connection ((r + 1) % 2 ^ 64) }
  | .seatAsked _ _ => { n with seat := (n.seat + 1) % 2 ^ 64 }
  | .login _ => { n with cookie := (n.cookie + 1) % 2 ^ 64 }
  | _ => n

/-- Numbers are taken from the counters; reports are decoded. -/
def Entry.Follows (n : Counters) : Entry → Prop
  | .accepted c => c = n.connection
  | .reported _ r => r < 2 ^ 64
  | .seatAsked c _ => c = n.seat
  | .login cookie => cookie = n.cookie
  | _ => True

variable {n : Counters} {d : Impl} {e : Entry}

/-- The counters after a history. -/
inductive Numbering : List Entry → Counters → Prop where
  | start : Numbering [] {}
  | next {log : List Entry} {n : Counters} {e : Entry} : Numbering log n → e.Follows n →
    Numbering (log ++ [e]) (n.after e)

/-! ### What the counters are worth -/

theorem accepts_append (a b : List Entry) : accepts (a ++ b) = accepts a + accepts b := countP_append

theorem seats_append (a b : List Entry) : seats (a ++ b) = seats a + seats b := countP_append

theorem acceptedNumbers_append (a b : List Entry) :
    acceptedNumbers (a ++ b) = acceptedNumbers a ++ acceptedNumbers b := filterMap_append

variable {log : List Entry}

theorem mem_acceptedNumbers {c : ℕ} : c ∈ acceptedNumbers log ↔ .accepted c ∈ log := by
  unfold acceptedNumbers
  rw [mem_filterMap]
  constructor
  · rintro ⟨e, he, hc⟩
    cases e <;> simp_all
  · intro h
    exact ⟨_, h, rfl⟩

theorem Modest.of_snoc (h : Modest (log ++ [e])) : Modest log := by
  refine ⟨?_, ?_, fun before session r after hlog hr hpos => ?_⟩
  · have := h.clients
    rw [accepts_append] at this
    omega
  · have := h.logins
    rw [seats_append] at this
    omega
  · have := h.reports before session r (after ++ [e]) (by rw [hlog]; simp) hr
    rw [accepts_append] at this
    omega

/-- Reports of numbers that the clients themselves could have. -/
theorem Modest.of_small (hc : accepts log < 2 ^ 62) (hs : seats log ≤ 2 ^ 63)
    (hr : ∀ session r, .reported session r ∈ log → r ≤ 2 ^ 62) : Modest log := by
  refine ⟨hc, hs, fun before session r after hlog _ _ => ?_⟩
  have hsmall := hr session r (by rw [hlog]; simp)
  rw [hlog, append_cons, accepts_append] at hc
  omega

/-- What a modest history says about its counters. -/
structure Tallied (log : List Entry) (n : Counters) : Prop where
  positive : 0 < n.connection
  small : n.connection < 2 ^ 64
  /-- The counter is past the clients and the reports. -/
  accepted : ∀ c, .accepted c ∈ log → c < n.connection
  reported : ∀ session r, .reported session r ∈ log → r = 2 ^ 64 - 1 ∨ r < n.connection
  /-- It counts from the start or from a report. -/
  counted : n.connection = 1 + accepts log ∨ ∃ before session r after, log = before ++ .reported session r :: after ∧
    r ≠ 2 ^ 64 - 1 ∧ n.connection = r + 1 + accepts after
  seat : n.seat = (seatConnectionBit + seats log) % 2 ^ 64

/-- What a modest history says about its numbers. -/
structure Spaced (log : List Entry) : Prop where
  accepted : ∀ c, .accepted c ∈ log → 0 < c ∧ c < seatConnectionBit
  distinct : (acceptedNumbers log).Nodup
  reported : ∀ before c after session r, log = before ++ .accepted c :: after → .reported session r ∈ before → c ≠ r
  seat : ∀ c cookie, .seatAsked c cookie ∈ log → seatConnectionBit ≤ c

theorem Tallied.accept (h : Tallied log n) (hm : Modest (log ++ [.accepted n.connection])) :
    n.connection < seatConnectionBit := by
  rcases h.counted with hc | ⟨before, session, r, after, hlog, hr, hc⟩
  · have := hm.clients
    rw [accepts_append] at this
    unfold seatConnectionBit
    omega
  · have hone : accepts [Entry.accepted n.connection] = 1 := rfl
    have := hm.reports before session r (after ++ [.accepted n.connection]) (by rw [hlog]; simp) hr
    rw [accepts_append] at this
    unfold seatConnectionBit
    omega

/-- Entries of the other kinds change nothing. -/
theorem Tallied.other (h : Tallied log n) (ha : ∀ c, e ≠ .accepted c) (hr : ∀ session r, e ≠ .reported session r)
    (hs : ∀ c k, e ≠ .seatAsked c k) : Tallied (log ++ [e]) n := by
  have h0 : accepts [e] = 0 := by
    cases e <;> first | rfl | exact absurd rfl (ha _)
  have hseat : seats [e] = 0 := by
    cases e <;> first | rfl | exact absurd rfl (hs _ _)
  refine ⟨h.positive, h.small, fun c hc => ?_, fun session r hm => ?_, ?_, ?_⟩
  · rcases mem_append.mp hc with hc | hc
    · exact h.accepted c hc
    · exact absurd (mem_singleton.mp hc).symm (ha c)
  · rcases mem_append.mp hm with hm | hm
    · exact h.reported session r hm
    · exact absurd (mem_singleton.mp hm).symm (hr session r)
  · rcases h.counted with hc | ⟨before, session, r, after, hlog, hne, hc⟩
    · left
      rw [accepts_append, h0]
      exact hc
    · right
      refine ⟨before, session, r, after ++ [e], by rw [hlog]; simp, hne, ?_⟩
      rw [accepts_append, h0]
      exact hc
  · rw [seats_append, hseat]
    exact h.seat

theorem Tallied.accepted_next (h : Tallied log n) (hm : Modest (log ++ [.accepted n.connection])) :
    Tallied (log ++ [.accepted n.connection]) (n.after (.accepted n.connection)) := by
  have hbelow := h.accept hm
  unfold seatConnectionBit at hbelow
  have hnext : (n.after (.accepted n.connection)).connection = n.connection + 1 := by
    unfold Counters.after
    rw [Nat.mod_eq_of_lt (by omega)]
  have hone : accepts [Entry.accepted n.connection] = 1 := rfl
  refine ⟨by omega, by omega, fun c hc => ?_, fun session r hr => ?_, ?_, ?_⟩
  · rcases mem_append.mp hc with hc | hc
    · have := h.accepted c hc
      omega
    · cases mem_singleton.mp hc
      omega
  · rcases mem_append.mp hr with hr | hr
    · exact (h.reported session r hr).imp (fun h => h) fun h => by omega
    · cases mem_singleton.mp hr
  · rcases h.counted with hc | ⟨before, session, r, after, hlog, hne, hc⟩
    · rw [accepts_append]
      omega
    · right
      refine ⟨before, session, r, after ++ [.accepted n.connection], by rw [hlog]; simp, hne, ?_⟩
      rw [accepts_append]
      omega
  · rw [seats_append]
    exact h.seat

theorem Tallied.reported_next {session r : ℕ} (h : Tallied log n) (hr : r < 2 ^ 64) :
    Tallied (log ++ [.reported session r]) (n.after (.reported session r)) := by
  have hnext : (n.after (.reported session r)).connection = max n.connection ((r + 1) % 2 ^ 64) := rfl
  have hpos := h.positive
  have hsmall := h.small
  refine ⟨by omega, by omega, fun c hc => ?_, fun session' r' hr' => ?_, ?_, ?_⟩
  · rcases mem_append.mp hc with hc | hc
    · have := h.accepted c hc
      omega
    · cases mem_singleton.mp hc
  · rcases mem_append.mp hr' with hr' | hr'
    · exact (h.reported session' r' hr').imp (fun h => h) fun h => by omega
    · cases mem_singleton.mp hr'
      omega
  · rw [hnext]
    rcases le_total ((r + 1) % 2 ^ 64) n.connection with hle | hle
    · rw [max_eq_left hle]
      rcases h.counted with hc | ⟨before, session', r', after, hlog, hne, hc⟩
      · left
        rw [accepts_append]
        exact hc
      · right
        refine ⟨before, session', r', after ++ [.reported session r], by rw [hlog]; simp, hne, ?_⟩
        rw [accepts_append]
        exact hc
    · right
      refine ⟨log, session, r, [], rfl, by omega, ?_⟩
      have : accepts [] = 0 := rfl
      omega
  · rw [seats_append]
    exact h.seat

theorem Tallied.seatAsked_next {cookie : ℕ} (h : Tallied log n) :
    Tallied (log ++ [.seatAsked n.seat cookie]) (n.after (.seatAsked n.seat cookie)) := by
  refine ⟨h.positive, h.small, fun c hc => ?_, fun session r hr => ?_, ?_, ?_⟩
  · rcases mem_append.mp hc with hc | hc
    · exact h.accepted c hc
    · cases mem_singleton.mp hc
  · rcases mem_append.mp hr with hr | hr
    · exact h.reported session r hr
    · cases mem_singleton.mp hr
  · rcases h.counted with hc | ⟨before, session, r, after, hlog, hne, hc⟩
    · left
      rw [accepts_append]
      exact hc
    · right
      refine ⟨before, session, r, after ++ [.seatAsked n.seat cookie], by rw [hlog]; simp, hne, ?_⟩
      rw [accepts_append]
      exact hc
  · have hone : seats [Entry.seatAsked n.seat cookie] = 1 := rfl
    have hnext : (n.after (.seatAsked n.seat cookie)).seat = (n.seat + 1) % 2 ^ 64 := rfl
    rw [seats_append, hone, hnext, h.seat]
    omega

/-- **What the counters say after a modest history.** -/
theorem Numbering.tallied (h : Numbering log n) (hm : Modest log) : Tallied log n := by
  induction h with
  | start =>
    refine ⟨by decide, by decide, fun c hc => ?_, fun session r hr => ?_, .inl rfl, rfl⟩
    · cases hc
    · cases hr
  | @next log n e _ hf ih =>
    have h := ih hm.of_snoc
    cases e with
    | accepted c =>
      cases hf
      exact h.accepted_next hm
    | reported session r => exact h.reported_next hf
    | seatAsked c cookie =>
      cases hf
      exact h.seatAsked_next
    | login cookie =>
      have ho := h.other (e := .login cookie) (by simp) (by simp) (by simp)
      exact ⟨ho.positive, ho.small, ho.accepted, ho.reported, ho.counted, ho.seat⟩
    | _ => exact h.other (by simp) (by simp) (by simp)

theorem Spaced.other (h : Spaced log) (ha : ∀ c, e ≠ .accepted c)
    (hs : ∀ c cookie, e = .seatAsked c cookie → seatConnectionBit ≤ c) : Spaced (log ++ [e]) := by
  have hnone : acceptedNumbers [e] = [] := by
    cases e <;> first | rfl | exact absurd rfl (ha _)
  refine ⟨fun c hc => ?_, ?_, fun before c after session r hlog hr => ?_, fun c cookie hc => ?_⟩
  · rcases mem_append.mp hc with hc | hc
    · exact h.accepted c hc
    · exact absurd (mem_singleton.mp hc).symm (ha c)
  · rw [acceptedNumbers_append, hnone, append_nil]
    exact h.distinct
  · rcases History.split_snoc hlog with ⟨rest, -, hlog⟩ | ⟨-, he, -⟩
    · exact h.reported before c rest session r hlog hr
    · exact absurd he.symm (ha c)
  · rcases mem_append.mp hc with hc | hc
    · exact h.seat c cookie hc
    · exact hs c cookie (mem_singleton.mp hc).symm

theorem Spaced.accept (h : Spaced log) (ht : Tallied log n) (hm : Modest (log ++ [.accepted n.connection])) :
    Spaced (log ++ [.accepted n.connection]) := by
  have hbelow := ht.accept hm
  refine ⟨fun c hc => ?_, ?_, fun before c after session r hlog hr => ?_, fun c cookie hc => ?_⟩
  · rcases mem_append.mp hc with hc | hc
    · exact h.accepted c hc
    · cases mem_singleton.mp hc
      exact ⟨ht.positive, hbelow⟩
  · rw [acceptedNumbers_append, nodup_append]
    refine ⟨h.distinct, nodup_singleton _, fun a ha b hb => ?_⟩
    have := ht.accepted a (mem_acceptedNumbers.mp ha)
    rw [mem_singleton.mp hb]
    omega
  · rcases History.split_snoc hlog with ⟨rest, -, hlog⟩ | ⟨-, he, hbefore⟩
    · exact h.reported before c rest session r hlog hr
    · cases he
      rw [← hbefore] at hr
      unfold seatConnectionBit at hbelow
      rcases ht.reported session r hr with hr | hr <;> omega
  · rcases mem_append.mp hc with hc | hc
    · exact h.seat c cookie hc
    · cases mem_singleton.mp hc

/-- **The numbers of a modest history are apart.** -/
theorem Numbering.spaced (h : Numbering log n) (hm : Modest log) : Spaced log := by
  induction h with
  | start =>
    refine ⟨fun c hc => ?_, nodup_nil, fun before c after session r hlog => ?_, fun c cookie hc => ?_⟩
    · cases hc
    · simp at hlog
    · cases hc
  | @next log n e hn hf ih =>
    have h := ih hm.of_snoc
    have ht := hn.tallied hm.of_snoc
    cases e with
    | accepted c =>
      cases hf
      exact h.accept ht hm
    | seatAsked c cookie =>
      refine h.other (by simp) ?_
      rintro c' cookie' ⟨⟩
      have hlogins := hm.logins
      have hone : seats [Entry.seatAsked c cookie] = 1 := rfl
      rw [seats_append] at hlogins
      have : c = n.seat := hf
      rw [this, ht.seat]
      unfold seatConnectionBit
      omega
    | _ => exact h.other (by simp) (by simp)

/-! ### Counting in 64 bits -/

theorem seatNumbers_append (a b : List Entry) : seatNumbers (a ++ b) = seatNumbers a ++ seatNumbers b :=
  filterMap_append

theorem loginCookies_append (a b : List Entry) : loginCookies (a ++ b) = loginCookies a ++ loginCookies b :=
    filterMap_append

theorem mem_seatNumbers {c : ℕ} : c ∈ seatNumbers log ↔ ∃ cookie, .seatAsked c cookie ∈ log := by
  unfold seatNumbers
  rw [mem_filterMap]
  constructor
  · rintro ⟨e, he, hc⟩
    cases e <;> simp_all
    exact ⟨_, he⟩
  · rintro ⟨cookie, h⟩
    exact ⟨_, h, rfl⟩

theorem mem_loginCookies {k : ℕ} : k ∈ loginCookies log ↔ .login k ∈ log := by
  unfold loginCookies
  rw [mem_filterMap]
  constructor
  · rintro ⟨e, he, hc⟩
    cases e <;> simp_all
  · intro h
    exact ⟨_, h, rfl⟩

/-- The numbers that a 64-bit counter gives out, from `a` on. -/
def counted (a n : ℕ) : List ℕ := (List.range n).map fun k => (a + k) % 2 ^ 64

theorem counted_succ (a n : ℕ) : counted a (n + 1) = counted a n ++ [(a + n) % 2 ^ 64] := by
  rw [counted, range_succ, map_append]
  rfl

theorem counted_nodup {a n : ℕ} (h : n ≤ 2 ^ 64) : (counted a n).Nodup := by
  refine List.Nodup.map_on (fun x hx y hy hxy => ?_) nodup_range
  rw [mem_range] at hx hy
  omega

/-- The logins' questions and the logins are numbered one after the other. -/
theorem Numbering.counted (h : Numbering log n) :
    (seatNumbers log = Daemon.counted seatConnectionBit (seats log) ∧
      n.seat = (seatConnectionBit + seats log) % 2 ^ 64) ∧
      loginCookies log = Daemon.counted 1 (loginCookies log).length ∧
        n.cookie = (1 + (loginCookies log).length) % 2 ^ 64 := by
  induction h with
  | start => exact ⟨⟨rfl, rfl⟩, rfl, rfl⟩
  | @next log n e _ hf ih =>
    obtain ⟨⟨hnumbers, hseat⟩, hcookies, hcookie⟩ := ih
    rw [seatNumbers_append, seats_append, loginCookies_append]
    cases e with
    | seatAsked c cookie =>
      have hc : c = n.seat := hf
      have hcount : seats [.seatAsked c cookie] = 1 := rfl
      have hnone : loginCookies [.seatAsked c cookie] = [] := rfl
      have hnext : (n.after (.seatAsked c cookie)).seat = (n.seat + 1) % 2 ^ 64 := rfl
      rw [hcount, hnone, hnext, append_nil, counted_succ, hnumbers, hc, hseat]
      exact ⟨⟨rfl, by omega⟩, hcookies, hcookie⟩
    | login cookie =>
      have hc : cookie = n.cookie := hf
      have hone : loginCookies [.login cookie] = [cookie] := rfl
      have hnone : seatNumbers [.login cookie] = [] := rfl
      have hnext : (n.after (.login cookie)).cookie = (n.cookie + 1) % 2 ^ 64 := rfl
      rw [hone, hnone, hnext, append_nil, length_append, length_singleton, counted_succ, ← hcookies, hc, hcookie]
      exact ⟨⟨hnumbers, hseat⟩, rfl, by omega⟩
    | _ =>
      refine ⟨⟨?_, hseat⟩, ?_, ?_⟩
      · exact (append_nil _).trans hnumbers
      · rw [show loginCookies [_] = [] from rfl, append_nil]
        exact hcookies
      · rw [show loginCookies [_] = [] from rfl, append_nil]
        exact hcookie

/-! ### Along a run -/

/-- An entry that leaves the counters alone and names nothing new. -/
def Entry.Plain (log : List Entry) : Entry → Prop
  | .accepted _ | .reported _ _ | .seatAsked _ _ | .login _ => False
  | .sent _ m _ | .unreached _ m => ∀ c, m.names = some c → c ≠ 0 ∨ Numbered log c
  | .settled r true => ∃ cookie, .seatAsked r.connection cookie ∈ log
  | _ => True

theorem Entry.Benign.plain (h : e.Benign log) : e.Plain log := by
  cases e with
  | sent _ m _ | unreached _ m => exact h.1
  | used _ _ | refused _ _ _ | delivered _ _ _ _ _ | brought _ _ _ => trivial
  | _ => exact h.elim

theorem Entry.Plain.mono (h : e.Plain log) (es : List Entry) : e.Plain (log ++ es) := by
  unfold Entry.Plain at h ⊢
  split
  · exact h
  · exact h
  · exact h
  · exact h
  · exact fun c hc => (h c hc).imp (fun h => h) fun hn => hn.mono es
  · exact fun c hc => (h c hc).imp (fun h => h) fun hn => hn.mono es
  · exact h.imp fun _ hk => mem_append_left _ hk
  · trivial

/-- What is sent and settled has a number. -/
def Named (log : List Entry) : Prop := ∀ e ∈ log, e.Plain log ∨
  match e with
  | .accepted _ | .reported _ _ | .seatAsked _ _ | .login _ => True
  | _ => False

theorem Numbering.append : ∀ {log : List Entry} (es : List Entry), Numbering log n →
    (∀ e ∈ es, ∃ log, e.Plain log) → Numbering (log ++ es) n
  | log, [], h, _ => by simpa using h
  | log, e :: es, h, hes => by
    obtain ⟨full, he⟩ := hes e mem_cons_self
    have hafter : n.after e = n := by
      cases e <;> first | rfl | exact he.elim
    have hnext : Numbering (log ++ [e]) (n.after e) := .next h (by cases e <;> trivial)
    rw [hafter] at hnext
    rw [append_cons]
    exact hnext.append es fun e' he' => hes e' (mem_cons_of_mem _ he')

theorem Named.append {es : List Entry} (h : Named log) (hes : ∀ e ∈ es, e.Plain (log ++ es)) : Named (log ++ es) := by
  intro e he
  rcases mem_append.mp he with he | he
  · exact (h e he).imp (fun hp => hp.mono es) fun h => h
  · exact .inl (hes e he)

namespace Impl

/-- The history and the counters belong together. -/
def Numbers (d : Impl) : Prop := Numbering d.log ⟨d.nextConnection, d.nextSeatConnection, d.seatGate.nextCookie⟩ ∧
    Named d.log

/-- A step that takes no number. -/
structure Unnumbered (d d' : Impl) : Prop where
  nextConnection : d'.nextConnection = d.nextConnection
  nextSeatConnection : d'.nextSeatConnection = d.nextSeatConnection
  nextCookie : d'.seatGate.nextCookie = d.seatGate.nextCookie
  log : ∃ es, d'.log = d.log ++ es ∧ ∀ e ∈ es, e.Plain d'.log

theorem Numbers.step {d' : Impl} (h : Numbers d) (hu : Unnumbered d d') : Numbers d' := by
  obtain ⟨es, hlog, hes⟩ := hu.log
  unfold Numbers
  rw [hu.nextConnection, hu.nextSeatConnection, hu.nextCookie]
  rw [hlog] at hes ⊢
  exact ⟨h.1.append es fun e he => ⟨_, hes e he⟩, h.2.append hes⟩

theorem Quiet.unnumbered {d' : Impl} (h : Quiet d d') : Unnumbered d d' := by
  obtain ⟨es, hlog, hes⟩ := h.log
  exact ⟨h.nextConnection, h.nextSeatConnection, by rw [h.seatGate], es, hlog, fun e he => (hes e he).plain⟩

theorem unnumbered_endSession (d : Impl) (id : ℕ) (cause : Option Message) : Unnumbered d (d.endSession id cause) := by
  have h := endSession_spec d id cause
  obtain ⟨refusal, hr, hlog⟩ := h.log
  refine ⟨h.nextConnection, h.nextSeatConnection, by rw [h.seatGate], _, hlog, fun e he => ?_⟩
  simp only [mem_cons, mem_append, not_mem_nil, or_false] at he
  rcases he with rfl | rfl | he | rfl
  · trivial
  · trivial
  · obtain ⟨c, i, r, rfl⟩ := hr e he
    trivial
  · trivial

theorem Numbers.accept (h : Numbers d) : Numbers d.acceptClient := by
  unfold acceptClient
  split_ifs
  · exact h
  · refine ⟨.next h.1 rfl, fun e he => ?_⟩
    rcases mem_append.mp he with he | he
    · exact (h.2 e he).imp (fun hp => hp.mono _) fun h => h
    · cases mem_singleton.mp he
      exact .inr trivial

theorem Numbers.report {id connection : ℕ} (h : Numbers d) (hc : connection < 2 ^ 64) :
    Numbers (d.report id connection) := by
  refine ⟨Numbering.next (e := .reported id connection) h.1 hc, fun e he => ?_⟩
  rcases mem_append.mp he with he | he
  · exact (h.2 e he).imp (fun hp => hp.mono _) fun h => h
  · cases mem_singleton.mp he
    exact .inr trivial

theorem Numbers.openQuestion {w : World} {session : ℕ} {waiting : Waiting} (h : Numbers d) :
    Numbers (d.openQuestion w session waiting) := by
  have hask : Unnumbered d ((d.use session).ask session d.nextSeatConnection { user := waiting.account } w.now) := by
    refine ⟨rfl, rfl, rfl, _, append_assoc _ _ _, fun e he => ?_⟩
    simp only [cons_append, nil_append, mem_cons, not_mem_nil, or_false] at he
    rcases he with rfl | rfl | rfl <;> trivial
  have h1 := h.step hask
  refine ⟨Numbering.next (e := .seatAsked d.nextSeatConnection waiting.cookie) h1.1 rfl, fun e he => ?_⟩
  rcases mem_append.mp he with he | he
  · exact (h1.2 e he).imp (fun hp => hp.mono _) fun h => h
  · cases mem_singleton.mp he
    exact .inr trivial

theorem Numbers.login {account : Text} (h : Numbers d) : Numbers (d.login account) := by
  unfold Impl.login
  rcases d.seatGate.begin_cases account with hb | ⟨pending, hb, -⟩
  · rw [hb]
    simpa using h
  · rw [hb]
    refine ⟨Numbering.next (e := .login d.seatGate.nextCookie) h.1 rfl, fun e he => ?_⟩
    rcases mem_append.mp he with he | he
    · exact (h.2 e he).imp (fun hp => hp.mono _) fun h => h
    · cases mem_singleton.mp he
      exact .inr trivial

/-- A step that adds entries which name nothing. -/
theorem Numbers.adds {d' : Impl} (h : Numbers d) (es : List Entry) (hc : d'.nextConnection = d.nextConnection)
    (hs : d'.nextSeatConnection = d.nextSeatConnection) (hg : d'.seatGate = d.seatGate) (hlog : d'.log = d.log ++ es)
    (hes : ∀ e ∈ es, e.Plain d'.log) : Numbers d' := h.step ⟨hc, hs, by rw [hg], es, hlog, hes⟩

theorem numbers_fine : Fine Numbers where
  quiet h _ hq := h.step hq.unnumbered
  ends h _ _ := h.step (unnumbered_endSession _ _ _)
  connect h _ _ := h.adds _ rfl rfl rfl (append_assoc _ _ _) (by simp [Entry.Plain])
  serve h _ _ := h.adds _ rfl rfl rfl rfl (by simp [Entry.Plain])
  unask h _ _ := h.adds _ rfl rfl rfl rfl (by simp [Entry.Plain])
  hold h _ _ := h.adds _ rfl rfl rfl rfl (by simp [Entry.Plain])
  forget h _ := h.adds _ rfl rfl rfl rfl (by simp [Entry.Plain])
  ask h _ _ := h.adds _ rfl rfl rfl rfl (by simp [Entry.Plain])
  sent h _ hq := by
    refine h.adds _ rfl rfl rfl rfl fun e he => ?_
    cases mem_singleton.mp he
    rintro c ⟨⟩
    exact .inr (hq.mono _)
  unreached h _ hq := by
    refine h.adds _ rfl rfl rfl rfl fun e he => ?_
    cases mem_singleton.mp he
    rintro c ⟨⟩
    exact .inr (hq.mono _)
  settled {d r rest seat} h ho _ hq := by
    refine h.adds _ rfl rfl rfl rfl fun e he => ?_
    cases mem_singleton.mp he
    cases seat with
    | false => trivial
    | true =>
      obtain ⟨q, hmem, hqr⟩ := hq rfl
      obtain ⟨cookie, hk⟩ := ho.questions q hmem
      rw [hqr] at hk
      exact ⟨cookie, mem_append_left _ hk⟩
  takeLogins h _ := h
  letGo h _ := h
  openQuestion h _ _ := h.openQuestion
  closeQuestion h _ := h
  disconnected h _ _ := h.adds _ rfl rfl rfl (append_assoc _ _ _) (by simp [Entry.Plain])
  release h _ := h.adds _ rfl rfl rfl rfl (by simp [Entry.Plain])
  answer h _ := h.adds _ rfl rfl rfl rfl (by simp [Entry.Plain])
  report h _ _ hc := h.report hc
  expire h _ := h.adds _ rfl rfl rfl rfl (by simp [Entry.Plain])
  accept h _ := h.accept
  login h _ := h.login
  awaited h _ := h
  releaseAll h _ := h
  opened h _ _ _ := h
  useAfterTerminate h _ _ := h.adds _ rfl rfl rfl rfl (by simp [Entry.Plain])

/-- What the numbers mean for messages and resolutions. -/
theorem Numbers.keptApart (h : Numbers d) (hm : Modest d.log) : KeptApart d.log := by
  have hs := h.1.spaced hm
  refine ⟨fun c hc => (hs.accepted c hc).1.ne', fun c hc => (hs.accepted c hc).2, hs.distinct,
    fun c c' cookie hc hc' => ?_, hs.reported, fun r hr hc => ?_, fun session m hsent hzero => ?_⟩
  · have := (hs.accepted c hc).2
    have := hs.seat c' cookie hc'
    omega
  · obtain ⟨cookie, hk⟩ := (h.2 _ hr).resolve_right (fun h => h)
    have := (hs.accepted _ hc).2
    have := hs.seat _ cookie hk
    omega
  · have hnum : (0 : ℕ) ≠ 0 ∨ Numbered d.log 0 := by
      rcases hsent with ⟨holder, hsent⟩ | hsent
      · exact (h.2 _ hsent).resolve_right (fun h => h) 0 hzero
      · exact (h.2 _ hsent).resolve_right (fun h => h) 0 hzero
    rcases hnum.resolve_left (by simp) with hacc | ⟨cookie, hk⟩
    · exact absurd (hs.accepted 0 hacc).1 (by simp)
    · exact absurd (hs.seat 0 cookie hk) (by decide)

/-- The history and the counters belong together along every run. -/
theorem start_numbers (options : Options) (w : World) (table : List (StoredSession × Option ℕ))
    (es : List (World × Event)) : Numbers ((start options w table).run es) := by
  have hfresh := start_fresh options w table
  have hstart : Numbers (start options w table) := by
    unfold Numbers
    rw [hfresh.log, hfresh.nextConnection, hfresh.nextSeatConnection, hfresh.seatGate]
    exact ⟨.start, fun e he => by cases he⟩
  exact (numbers_fine.closed.run es ⟨hstart, hfresh.owned⟩).1

/-- **Connection numbers stay apart** in every state of every modest run. -/
theorem run_keptApart (options : Options) (w : World) (table : List (StoredSession × Option ℕ))
    (es : List (World × Event)) (h : Modest ((start options w table).run es).log) :
    KeptApart ((start options w table).run es).log := (start_numbers options w table es).keptApart h

/-! ### Reports at the edge -/

/-- The first client's session; its agent reports the connection `r`, and
another client comes. -/
def reporting (r : ℕ) : List (World × Event) :=
  calmly (arriving 1 (text "alice") ++ [.readAgent 1 [.message (.stats { connectionId := r })] true, .acceptClient])

/-- The agent reports 7, so the next client gets 8. -/
theorem reporting_seven_modest : Modest ((start { noPam := true } {} []).run (reporting 7)).log := by
  have hsmall : (((start { noPam := true } {} []).run (reporting 7)).log.all fun e => match e with
      | .reported _ r => decide (r ≤ 2 ^ 62)
      | _ => true) = true := by decide
  refine .of_small (by decide) (by decide) fun session r hr => ?_
  simpa using all_eq_true.mp hsmall _ hr

theorem reporting_seven_keptApart : .accepted 8 ∈ ((start { noPam := true } {} []).run (reporting 7)).log ∧
    KeptApart ((start { noPam := true } {} []).run (reporting 7)).log :=
  ⟨by decide, run_keptApart _ _ _ _ reporting_seven_modest⟩

/-- **One Stats, and a client has the number of a login's question.** -/
theorem report_reaches_seats : ¬ ∀ (options : Options) (w : World) (table : List (StoredSession × Option ℕ))
    (es : List (World × Event)), accepts ((start options w table).run es).log < 2 ^ 62 →
    KeptApart ((start options w table).run es).log := by
  intro h
  have hkept := h { noPam := true } {} [] (reporting (2 ^ 63 - 1)) (by decide)
  have hclient : .accepted (2 ^ 63) ∈ ((start { noPam := true } {} []).run (reporting (2 ^ 63 - 1))).log := by decide
  exact absurd (hkept.below _ hclient) (by decide)

end Impl
end Daemon
end Farland
