/-
# Reading back

A decoder undoes an encoder field by field. `Parse.ReadsBack p bytes a` says
that `p`, in front of `bytes`, gives `a` and stands behind them, whatever
follows; `Parse.FailsOn p bytes` that `p` fails in front of them. Both go
through a sequence of steps, so the round trip of a message is one rule for
each of its fields. `Parse.Gives p Q` says the same of any input: whatever `p`
gives has `Q`. `Parse.Consumes k p` says that `p` takes at least `k` bytes, so
that a loop of such steps comes to an end. `Parse.Undoes p out a lo hi` is
`ReadsBack` for an encoder that asserts: if it did not abort, `p` reads back
what it wrote, which is `lo` to `hi` bytes. The other way round,
`Parse.Took p W` says what the bytes were that a field was read from, and
`Parse.Whole p Q` what a whole message was.
-/
import Farland.Base.Reader

namespace Farland

open LittleEndian List Reader Parse

/-! ### Signed fields -/

theorem toUnsigned_lt (w : ℕ) (v : ℤ) : toUnsigned w v < 2 ^ w := by
  have hpos : (0 : ℤ) < 2 ^ w := by positivity
  have h0 := Int.emod_nonneg v hpos.ne'
  have h1 := Int.emod_lt_of_pos v hpos
  unfold toUnsigned
  zify
  rwa [Int.toNat_of_nonneg h0]

theorem toSigned_toUnsigned {w : ℕ} {v : ℤ} (hlo : -(2 ^ w) ≤ v) (hhi : v < 2 ^ w) :
    toSigned (w + 1) (toUnsigned (w + 1) v) = v := by
  unfold toSigned toUnsigned
  rw [Nat.add_sub_cancel]
  rcases lt_or_ge v 0 with hv | hv
  · have hmod : v % 2 ^ (w + 1) = v + 2 ^ (w + 1) := by
      rw [← Int.add_emod_right, Int.emod_eq_of_lt (by omega) (by omega)]
    rw [if_neg (by zify; omega)]
    omega
  · rw [Int.emod_eq_of_lt hv (by omega), if_pos (by zify; omega), Int.toNat_of_nonneg hv]

theorem toUnsigned_toSigned {w v : ℕ} (h : v < 2 ^ w) : toUnsigned w (toSigned w v) = v := by
  have hcast : (v : ℤ) < 2 ^ w := by exact_mod_cast h
  have hmod : (v : ℤ) % 2 ^ w = v := Int.emod_eq_of_lt (Int.natCast_nonneg v) hcast
  unfold toUnsigned toSigned
  split_ifs
  · rw [hmod, Int.toNat_natCast]
  · rw [Int.sub_emod_right, hmod, Int.toNat_natCast]

theorem toSigned_mem {w v : ℕ} (h : v < 2 ^ (w + 1)) :
    -(2 ^ w) ≤ toSigned (w + 1) v ∧ toSigned (w + 1) v < 2 ^ w := by
  have hcast : (v : ℤ) < 2 ^ (w + 1) := by exact_mod_cast h
  unfold toSigned
  split_ifs with hv
  · have hlt : (v : ℤ) < 2 ^ w := by exact_mod_cast hv
    omega
  · have hge : (2 : ℤ) ^ w ≤ v := by exact_mod_cast not_lt.mp hv
    omega

namespace Parse

/-- `p` gives `a` in front of `bytes`, and consumes just them. -/
def ReadsBack {α : Type} (p : Parse α) (bytes : List UInt8) (a : α) : Prop :=
  ∀ rest o, p ⟨bytes ++ rest, o⟩ = .ok (a, ⟨rest, o + bytes.length⟩)

/-- `p` fails in front of `bytes`. -/
def FailsOn {α : Type} (p : Parse α) (bytes : List UInt8) : Prop :=
  ∀ rest o, ∃ e, p ⟨bytes ++ rest, o⟩ = .error e

section

variable {α β : Type} {p : Parse α} {f : α → Parse β} {a : α} {b : β} {xs ys : List UInt8}

theorem ReadsBack.pure (a : α) : ReadsBack (pure a : Parse α) [] a := fun _ _ => rfl

theorem ReadsBack.bind (hp : p.ReadsBack xs a) (hf : (f a).ReadsBack ys b) : (p >>= f).ReadsBack (xs ++ ys) b := by
  intro rest o
  rw [append_assoc, bind_ok (hp (ys ++ rest) o), hf rest, length_append, Nat.add_assoc]

/-- A last step without a field of its own. -/
theorem ReadsBack.map (hp : p.ReadsBack xs a) (hf : (f a).ReadsBack [] b) : (p >>= f).ReadsBack xs b := by
  have h := hp.bind hf
  rwa [append_nil] at h

/-- The offset only goes into errors. -/
theorem ReadsBack.at_ {f : ℕ → Parse β} (hf : ∀ o, (f o).ReadsBack ys b) : (at_ >>= f).ReadsBack ys b :=
  fun rest o => hf o rest o

/-- A check that passes. -/
theorem ReadsBack.unless {c : Prop} [Decidable c] {q : Parse α} (hc : ¬ c) (hp : p.ReadsBack xs a) :
    (if c then q else p).ReadsBack xs a := by
  rwa [if_neg hc]

theorem ReadsBack.fails (hp : p.ReadsBack xs a) (hf : (f a).FailsOn ys) : (p >>= f).FailsOn (xs ++ ys) := by
  intro rest o
  obtain ⟨e, he⟩ := hf rest (o + xs.length)
  exact ⟨e, by rw [append_assoc, bind_ok (hp (ys ++ rest) o), he]⟩

theorem FailsOn.bind (hp : p.FailsOn xs) : (p >>= f).FailsOn xs := by
  intro rest o
  obtain ⟨e, he⟩ := hp rest o
  exact ⟨e, by
    change (Except.bind (p _) fun q => f q.1 q.2) = _
    rw [he]
    rfl⟩

theorem FailsOn.append (hp : p.FailsOn xs) (ys : List UInt8) : p.FailsOn (xs ++ ys) := by
  intro rest o
  rw [append_assoc]
  exact hp (ys ++ rest) o

theorem FailsOn.at_ {f : ℕ → Parse β} (hf : ∀ o, (f o).FailsOn ys) : (at_ >>= f).FailsOn ys := fun rest o => hf o rest o

end

/-! ### A whole input -/

/-- `p` gives `a` when `bytes` are all there is. -/
def Reads {α : Type} (p : Parse α) (bytes : List UInt8) (a : α) : Prop := ∀ o, ∃ r, p ⟨bytes, o⟩ = .ok (a, r)

section

variable {α β : Type} {p : Parse α} {f : α → Parse β} {a : α} {b : β} {xs ys : List UInt8}

theorem ReadsBack.reads (h : p.ReadsBack xs a) : p.Reads xs a := by
  intro o
  have hback := h [] o
  rw [append_nil] at hback
  exact ⟨_, hback⟩

theorem ReadsBack.then (hp : p.ReadsBack xs a) (hf : (f a).Reads ys b) : (p >>= f).Reads (xs ++ ys) b := by
  intro o
  obtain ⟨r, hr⟩ := hf (o + xs.length)
  exact ⟨r, by rw [bind_ok (hp ys o), hr]⟩

/-- The last field. -/
theorem ReadsBack.last (hp : p.ReadsBack xs a) (hf : (f a).Reads [] b) : (p >>= f).Reads xs b := by
  have h := hp.then hf
  rwa [append_nil] at h

theorem Reads.at_ {f : ℕ → Parse β} (hf : ∀ o, (f o).Reads ys b) : (at_ >>= f).Reads ys b := fun o => hf o o

/-- How much is left to read. -/
theorem Reads.left {f : ℕ → Parse β} (hf : (f ys.length).Reads ys b) : (left >>= f).Reads ys b := fun o => hf o

/-- Whether anything is. -/
theorem Reads.atEnd {f : Bool → Parse β} (hf : (f ys.isEmpty).Reads ys b) : (atEnd >>= f).Reads ys b := fun o => hf o

theorem Reads.unless {c : Prop} [Decidable c] {q : Parse α} (hc : ¬ c) (hp : p.Reads xs a) :
    (if c then q else p).Reads xs a := by
  rwa [if_neg hc]

/-- A last step that reads nothing more. -/
theorem Reads.then (hp : p.Reads xs a) (hf : ∀ r, ∃ r', f a r = .ok (b, r')) : (p >>= f).Reads xs b := by
  intro o
  obtain ⟨r, hr⟩ := hp o
  obtain ⟨r', hr'⟩ := hf r
  exact ⟨r', by rw [bind_ok hr, hr']⟩

theorem Reads.map {g : α → β} (hp : p.Reads xs a) : (g <$> p).Reads xs (g a) := by
  intro o
  obtain ⟨r, hr⟩ := hp o
  refine ⟨r, ?_⟩
  change (Except.bind (p _) fun q => .ok (g q.1, q.2)) = _
  rw [hr]
  rfl

theorem expectEnd_reads {f : Unit → Parse β} (what : String) (hf : (f ()).Reads [] b) :
    (expectEnd what >>= f).Reads [] b := by
  intro o
  obtain ⟨r, hr⟩ := hf o
  exact ⟨r, by rw [bind_ok (expectEnd_nil what o), hr]⟩

end

/-! ### What a step can give -/

/-- Whatever `p` gives has `Q`. -/
def Gives {α : Type} (p : Parse α) (Q : α → Prop) : Prop := ∀ r a r', p r = .ok (a, r') → Q a

section

variable {α β : Type} {p q : Parse α} {f : α → Parse β} {P Q : α → Prop} {R : β → Prop}

theorem Gives.pure {a : α} (h : Q a) : (pure a : Parse α).Gives Q := by
  intro r b r' hb
  cases hb
  exact h

theorem Gives.fail (code : Errc) (what : String) (offset : ℕ) : (Parse.fail code what offset : Parse α).Gives Q :=
  fun _ _ _ h => by cases h

theorem Gives.bind (hp : p.Gives P) (hf : ∀ a, P a → (f a).Gives R) : (p >>= f).Gives R := by
  intro r b r' h
  obtain ⟨a, r₁, ha, hb⟩ := of_bind_ok h
  exact hf a (hp r a r₁ ha) r₁ b r' hb

/-- A first step of which nothing is known. -/
theorem Gives.next (hf : ∀ a, (f a).Gives R) : (p >>= f).Gives R :=
  Gives.bind (P := fun _ => True) (fun _ _ _ _ => trivial) fun a _ => hf a

theorem Gives.ite {c : Prop} [Decidable c] (hp : c → p.Gives Q) (hq : ¬ c → q.Gives Q) :
    (if c then p else q).Gives Q := by
  split_ifs with hc
  · exact hp hc
  · exact hq hc

theorem Gives.on (hp : p.Gives Q) (r : Reader) : (Parse.on r p).Gives Q := by
  intro outer a outer' h
  unfold Parse.on at h
  rcases hr : p r with e | ⟨b, r'⟩
  · rw [hr] at h
    cases h
  · rw [hr] at h
    cases h
    exact hp r _ r' hr

theorem Gives.imp (hp : p.Gives P) (h : ∀ a, P a → Q a) : p.Gives Q := fun r a r' ha => h a (hp r a r' ha)

end

theorem readLe_gives (n : ℕ) : (readLe n).Gives (· < 256 ^ n) := fun _ _ _ h => readLe_lt h

variable (count : ℕ)

theorem bytes_gives : (bytes count).Gives (·.length = count) := by
  intro r xs r' h
  unfold bytes at h
  split_ifs at h with hlen
  · cases h
  · cases h
    rw [length_take]
    omega

variable {α : Type}

theorem readMany_gives (readOne : Parse α) : ∀ count : ℕ, (readMany readOne count).Gives (·.length = count)
  | 0 => Gives.pure rfl
  | count + 1 => by
    refine Gives.next fun value => ?_
    refine (readMany_gives readOne count).bind fun rest hrest => ?_
    exact Gives.pure (by simp [hrest])

/-! ### What a step consumes -/

/-- `p` takes at least `k` bytes. -/
def Consumes {α : Type} (k : ℕ) (p : Parse α) : Prop :=
  ∀ r a r', p r = .ok (a, r') → r'.rest.length + k ≤ r.rest.length

section

variable {α β : Type} {p q : Parse α} {f : α → Parse β} {j k : ℕ}

theorem Consumes.pure (a : α) : Consumes 0 (pure a : Parse α) := by
  intro r b r' h
  cases h
  exact le_rfl

theorem Consumes.bind (hp : p.Consumes j) (hf : ∀ a, (f a).Consumes k) : (p >>= f).Consumes (j + k) := by
  intro r b r' h
  obtain ⟨a, r₁, ha, hb⟩ := of_bind_ok h
  have h1 := hp r a r₁ ha
  have h2 := hf a r₁ b r' hb
  omega

theorem Consumes.ite {c : Prop} [Decidable c] (hp : p.Consumes k) (hq : q.Consumes k) :
    (if c then p else q).Consumes k := by
  split_ifs
  · exact hp
  · exact hq

theorem Consumes.le (hp : p.Consumes k) (h : j ≤ k) : p.Consumes j := by
  intro r a r' ha
  have hk := hp r a r' ha
  omega

theorem bytes_consumes (n : ℕ) : (bytes n).Consumes n := by
  intro r a r' h
  unfold bytes at h
  split_ifs at h with hlen
  · cases h
  · cases h
    simp only [length_drop]
    omega

theorem readLe_consumes (n : ℕ) : (readLe n).Consumes n := by
  intro r a r' h
  unfold readLe at h
  rcases hb : bytes n r with e | ⟨raw, r₁⟩
  · rw [hb] at h
    cases h
  · rw [hb] at h
    cases h
    exact bytes_consumes n r raw _ hb

theorem sub_consumes (n : ℕ) : (sub n).Consumes n := by
  intro r a r' h
  unfold sub at h
  rcases hb : bytes n r with e | ⟨raw, r₁⟩
  · rw [hb] at h
    cases h
  · rw [hb] at h
    cases h
    exact bytes_consumes n r raw _ hb

theorem readMany_consumes {readOne : Parse α} (h : readOne.Consumes k) : ∀ count : ℕ,
    (readMany readOne count).Consumes 0
  | 0 => Consumes.pure []
  | count + 1 => (h.bind fun _ => (readMany_consumes h count).bind fun _ => Consumes.pure _).le (Nat.zero_le _)

end

/-! ### The fields of every protocol -/

variable {v : ℕ}

theorem readLe_readsBack (n : ℕ) (h : v < 256 ^ n) : (readLe n).ReadsBack (leBytes n v) v := by
  intro rest o
  rw [readLe_append n v rest o h, leBytes_length]

theorem u8_readsBack (h : v < 2 ^ 8) : u8.ReadsBack (Writer.u8 v) v := readLe_readsBack 1 (by omega)

theorem u16le_readsBack (h : v < 2 ^ 16) : u16le.ReadsBack (Writer.u16le v) v := readLe_readsBack 2 (by omega)

theorem u32le_readsBack (h : v < 2 ^ 32) : u32le.ReadsBack (Writer.u32le v) v := readLe_readsBack 4 (by omega)

theorem u64le_readsBack (h : v < 2 ^ 64) : u64le.ReadsBack (Writer.u64le v) v := readLe_readsBack 8 (by omega)

theorem bytes_readsBack (xs : List UInt8) : (bytes xs.length).ReadsBack xs xs := fun rest o => bytes_append xs rest o

variable {write : α → List UInt8}

/-- Elements written one behind the other. -/
theorem readMany_readsBack {readOne : Parse α} :
    ∀ (l : List α), (∀ a ∈ l, readOne.ReadsBack (write a) a) → (readMany readOne l.length).ReadsBack (l.flatMap write) l
  | [], _ => ReadsBack.pure []
  | a :: l, h =>
    (h a mem_cons_self).bind ((readMany_readsBack l fun x hx => h x (mem_cons_of_mem _ hx)).map (ReadsBack.pure _))

/-- Elements that do not come back as they were. -/
theorem readMany_readsBack_related {β : Type} {readOne : Parse β} {R : α → β → Prop} :
    ∀ (l : List α), (∀ a ∈ l, ∃ b, R a b ∧ readOne.ReadsBack (write a) b) →
      ∃ l', List.Forall₂ R l l' ∧ (readMany readOne l.length).ReadsBack (l.flatMap write) l'
  | [], _ => ⟨[], List.Forall₂.nil, ReadsBack.pure []⟩
  | a :: l, h => by
    obtain ⟨b, hab, hb⟩ := h a mem_cons_self
    obtain ⟨l', hl', hback⟩ := readMany_readsBack_related l fun x hx => h x (mem_cons_of_mem _ hx)
    exact ⟨b :: l', List.Forall₂.cons hab hl', hb.bind (hback.map (ReadsBack.pure _))⟩

/-! ### Encoders that assert -/

/-- What an encoder writes, field by field; `none` is an assertion that failed. -/
def writeAll : List (Option (List UInt8)) → Option (List UInt8)
  | [] => some []
  | field :: fields => do
    let xs ← field
    let ys ← writeAll fields
    pure (xs ++ ys)

variable {fields : List (Option (List UInt8))}

theorem writeAll_eq_some {field : Option (List UInt8)} {bytes : List UInt8} :
    writeAll (field :: fields) = some bytes ↔
      ∃ xs ys, field = some xs ∧ writeAll fields = some ys ∧ bytes = xs ++ ys := by
  cases field <;> cases h : writeAll fields <;> simp [writeAll, h, eq_comm]

/-- No assertion fails when none of a field does. -/
theorem writeAll_isSome : (writeAll fields).isSome ↔ ∀ field ∈ fields, field.isSome := by
  induction fields with
  | nil => simp [writeAll]
  | cons field fields ih =>
    rw [forall_mem_cons, ← ih]
    cases field <;> cases h : writeAll fields <;> simp [writeAll, h]

/-- Unless the encoder aborted, `p` gives `a` in front of what it wrote, which is `lo` to `hi` bytes. -/
def Undoes {α : Type} (p : Parse α) (out : Option (List UInt8)) (a : α) (lo hi : ℕ) : Prop :=
  ∀ bytes, out = some bytes → p.ReadsBack bytes a ∧ lo ≤ bytes.length ∧ bytes.length ≤ hi

section

variable {α β : Type} {p : Parse α} {f : α → Parse β} {a : α} {b : β} {out : Option (List UInt8)}
  {outs : List (Option (List UInt8))} {lo hi lo' hi' : ℕ}

theorem Undoes.of_readsBack {bytes : List UInt8} (h : p.ReadsBack bytes a) (hlo : lo ≤ bytes.length)
    (hhi : bytes.length ≤ hi) : p.Undoes (some bytes) a lo hi := by
  intro written hw
  cases hw
  exact ⟨h, hlo, hhi⟩

theorem Undoes.pure (a : α) : (pure a : Parse α).Undoes (writeAll []) a 0 0 :=
  Undoes.of_readsBack (ReadsBack.pure a) le_rfl le_rfl

theorem Undoes.bind (hp : p.Undoes out a lo hi) (hf : (f a).Undoes (writeAll outs) b lo' hi') :
    (p >>= f).Undoes (writeAll (out :: outs)) b (lo + lo') (hi + hi') := by
  intro bytes h
  obtain ⟨xs, ys, hx, hy, rfl⟩ := writeAll_eq_some.mp h
  obtain ⟨hxs, hxlo, hxhi⟩ := hp xs hx
  obtain ⟨hys, hylo, hyhi⟩ := hf ys hy
  refine ⟨hxs.bind hys, ?_, ?_⟩ <;> rw [length_append] <;> omega

theorem Undoes.imp (hp : p.Undoes out a lo hi) (hlo : lo' ≤ lo) (hhi : hi ≤ hi') : p.Undoes out a lo' hi' := by
  intro bytes h
  obtain ⟨hback, h1, h2⟩ := hp bytes h
  exact ⟨hback, hlo.trans h1, h2.trans hhi⟩

/-- Behind an assertion. -/
theorem Undoes.asserts {c : Prop} [Decidable c] (hp : c → p.Undoes out a lo hi) :
    p.Undoes (do asserts c; out) a lo hi := by
  intro bytes h
  obtain ⟨_, hc, h⟩ := Option.bind_eq_some_iff.mp h
  exact hp (asserts_eq_some.mp hc) bytes h

/-- A counted array. -/
theorem readMany_undoes {readOne : Parse α} {write : α → Option (List UInt8)} :
    ∀ l : List α, (∀ a ∈ l, readOne.Undoes (write a) a lo hi) →
      (readMany readOne l.length).Undoes (writeAll (l.map write)) l (lo * l.length) (hi * l.length)
  | [], _ => Undoes.pure []
  | a :: l, h => by
    have ih := readMany_undoes l fun x hx => h x (mem_cons_of_mem _ hx)
    intro bytes hb
    obtain ⟨xs, ys, hx, hy, rfl⟩ := writeAll_eq_some.mp hb
    obtain ⟨hxs, hxlo, hxhi⟩ := h a mem_cons_self xs hx
    obtain ⟨hys, hylo, hyhi⟩ := ih ys hy
    refine ⟨hxs.bind (hys.map (ReadsBack.pure _)), ?_, ?_⟩ <;>
      rw [length_append, length_cons, Nat.mul_succ] <;> omega

end

/-- `read` and `write` are one format: what is written without aborting is read
back, and whatever is read can be written again in as few bytes. -/
structure Format {α : Type} (read : Parse α) (write : α → Option (List UInt8)) (InRange : α → Prop) : Prop where
  asserted : ∀ v, (write v).isSome ↔ InRange v
  readsBack : ∀ v bytes, write v = some bytes → read.ReadsBack bytes v
  fewest : ∀ r v r', read r = .ok (v, r') →
    ∃ bytes, write v = some bytes ∧ r'.rest.length + bytes.length ≤ r.rest.length

theorem Format.gives {read : Parse α} {write : α → Option (List UInt8)} {InRange : α → Prop}
    (h : Format read write InRange) : read.Gives fun v => (write v).isSome := by
  intro r v r' hr
  obtain ⟨bytes, hb, -⟩ := h.fewest r v r' hr
  rw [hb, Option.isSome_some]

/-! ### What was read -/

/-- Whatever `p` gives, it and the bytes that `p` took have `W`. -/
def Took {α : Type} (p : Parse α) (W : α → List UInt8 → Prop) : Prop :=
  ∀ r a r', p r = .ok (a, r') → ∃ xs, r.rest = xs ++ r'.rest ∧ W a xs

/-- Whatever `p` gives, it and all there was to read have `Q`. -/
def Whole {α : Type} (p : Parse α) (Q : α → List UInt8 → Prop) : Prop := ∀ r a r', p r = .ok (a, r') → Q a r.rest

section

variable {α β : Type} {p q : Parse α} {f : α → Parse β} {a : α} {b : β} {W W' : α → List UInt8 → Prop}
  {Q : β → List UInt8 → Prop}

theorem Took.pure (h : W a []) : (pure a : Parse α).Took W := by
  intro r b r' hb
  cases hb
  exact ⟨[], rfl, h⟩

theorem Took.fail (code : Errc) (what : String) (offset : ℕ) : (Parse.fail code what offset : Parse α).Took W :=
  fun _ _ _ h => by cases h

theorem Took.bind (hp : p.Took W) (hf : ∀ a xs, W a xs → (f a).Took fun b ys => Q b (xs ++ ys)) :
    (p >>= f).Took Q := by
  intro r b r' h
  obtain ⟨a, r₁, ha, hb⟩ := of_bind_ok h
  obtain ⟨xs, hxs, hw⟩ := hp r a r₁ ha
  obtain ⟨ys, hys, hq⟩ := hf a xs hw r₁ b r' hb
  exact ⟨xs ++ ys, by rw [hxs, hys, append_assoc], hq⟩

theorem Took.at_ {f : ℕ → Parse β} (hf : ∀ o, (f o).Took Q) : (at_ >>= f).Took Q := fun r b r' h => hf r.offset r b r' h

theorem Took.ite {c : Prop} [Decidable c] (hp : c → p.Took W) (hq : ¬ c → q.Took W) :
    (if c then p else q).Took W := by
  split_ifs with hc
  · exact hp hc
  · exact hq hc

theorem Took.imp (hp : p.Took W) (h : ∀ a xs, W a xs → W' a xs) : p.Took W' := by
  intro r a r' ha
  obtain ⟨xs, hxs, hw⟩ := hp r a r' ha
  exact ⟨xs, hxs, h a xs hw⟩

theorem Whole.fail (code : Errc) (what : String) (offset : ℕ) : (Parse.fail code what offset : Parse α).Whole W :=
  fun _ _ _ h => by cases h

theorem Took.whole (hp : p.Took W) (hf : ∀ a xs, W a xs → (f a).Whole fun b ys => Q b (xs ++ ys)) :
    (p >>= f).Whole Q := by
  intro r b r' h
  obtain ⟨a, r₁, ha, hb⟩ := of_bind_ok h
  obtain ⟨xs, hxs, hw⟩ := hp r a r₁ ha
  rw [hxs]
  exact hf a xs hw r₁ b r' hb

theorem Whole.at_ {f : ℕ → Parse β} (hf : ∀ o, (f o).Whole Q) : (at_ >>= f).Whole Q :=
  fun r b r' h => hf r.offset r b r' h

theorem Whole.ite {c : Prop} [Decidable c] (hp : c → p.Whole W) (hq : ¬ c → q.Whole W) :
    (if c then p else q).Whole W := by
  split_ifs with hc
  · exact hp hc
  · exact hq hc

/-- A message that ends where it says. -/
theorem Whole.expectEnd {what : String} (h : Q b []) :
    (Reader.expectEnd what >>= fun _ => (Pure.pure b : Parse β)).Whole Q := by
  intro r b' r' hr
  obtain ⟨u, r₁, hu, hb⟩ := of_bind_ok hr
  unfold Reader.expectEnd at hu
  split_ifs at hu with hrest
  · cases hb
    rwa [hrest]
  · cases hu

end

theorem bytes_took : (bytes count).Took fun a xs => a.length = count ∧ xs = a := by
  intro r a r' h
  unfold bytes at h
  split_ifs at h with hlen
  · cases h
  · cases h
    exact ⟨r.rest.take count, (take_append_drop count r.rest).symm, length_take_of_le (not_lt.mp hlen), rfl⟩

theorem skip_took : (skip count).Took fun _ xs => xs.length = count := by
  intro r a r' h
  unfold skip at h
  rcases hb : bytes count r with e | ⟨raw, r₁⟩
  · rw [hb] at h
    cases h
  · rw [hb] at h
    cases h
    obtain ⟨xs, hxs, hlen, rfl⟩ := bytes_took count r raw _ hb
    exact ⟨xs, hxs, hlen⟩

theorem sub_took : (sub count).Took fun a xs => a.rest.length = count ∧ xs = a.rest := by
  intro r a r' h
  unfold sub at h
  rcases hb : bytes count r with e | ⟨raw, r₁⟩
  · rw [hb] at h
    cases h
  · rw [hb] at h
    cases h
    exact bytes_took count r raw _ hb

/-- `read` and `write` are inverse to each other on the values that are `Valid`. -/
structure Inverse {α : Type} (read : Parse α) (write : α → List UInt8) (Valid : α → Prop) : Prop where
  readsBack : ∀ {a}, Valid a → read.ReadsBack (write a) a
  took : read.Took fun a xs => Valid a ∧ xs = write a

section

variable {α β : Type} {read : Parse α} {write : α → List UInt8} {Valid : α → Prop} {f : α → Parse β}
  {Q : β → List UInt8 → Prop}

/-- A field, and what follows it. -/
theorem Inverse.bind (h : Inverse read write Valid) (hf : ∀ a, Valid a → (f a).Took fun b ys => Q b (write a ++ ys)) :
    (read >>= f).Took Q :=
  h.took.bind fun a _ hw => hw.2 ▸ hf a hw.1

theorem Inverse.whole (h : Inverse read write Valid) (hf : ∀ a, Valid a → (f a).Whole fun b ys => Q b (write a ++ ys)) :
    (read >>= f).Whole Q :=
  h.took.whole fun a _ hw => hw.2 ▸ hf a hw.1

end

theorem readLe_inverse (n : ℕ) : Inverse (readLe n) (leBytes n) (· < 256 ^ n) where
  readsBack := readLe_readsBack n
  took := by
    intro r v r' h
    have hlt := readLe_lt h
    unfold readLe at h
    rcases hb : bytes n r with e | ⟨raw, r₁⟩
    · rw [hb] at h
      cases h
    · rw [hb] at h
      cases h
      obtain ⟨xs, hxs, hlen, rfl⟩ := bytes_took n r raw _ hb
      refine ⟨xs, hxs, hlt, ?_⟩
      rw [leBytes_leValue n xs hlen.ge, take_of_length_le hlen.le]

theorem u8_inverse : Inverse u8 Writer.u8 (· < 2 ^ 8) := readLe_inverse 1
theorem u16le_inverse : Inverse u16le Writer.u16le (· < 2 ^ 16) := readLe_inverse 2
theorem u32le_inverse : Inverse u32le Writer.u32le (· < 2 ^ 32) := readLe_inverse 4
theorem u64le_inverse : Inverse u64le Writer.u64le (· < 2 ^ 64) := readLe_inverse 8

theorem readMany_took {readOne : Parse α} {Valid : α → Prop} (h : Inverse readOne write Valid) :
    ∀ count : ℕ,
    (readMany readOne count).Took fun l xs => l.length = count ∧ (∀ a ∈ l, Valid a) ∧ xs = l.flatMap write
  | 0 => Took.pure ⟨rfl, by simp, rfl⟩
  | count + 1 => by
    apply h.bind
    intro a ha
    apply (readMany_took h count).bind
    rintro l _ ⟨rfl, hl, rfl⟩
    apply Took.pure
    refine ⟨rfl, ?_, by simp⟩
    intro x hx
    rcases mem_cons.mp hx with rfl | hx
    · exact ha
    · exact hl x hx

end Parse
end Farland
