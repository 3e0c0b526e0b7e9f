/-
# Bitmap cache accounting

What every run of the RDPGFX server keeps about its bitmap cache, surfaces
and codec contexts. `View` is the part of the state that the accounting is
about, `Inv` the invariant, and `step_inv` says that every command and every
client message keeps it.

The server sums the sizes of cached rectangles in 32-bit arithmetic. As long
as no rectangle of `2 ^ 32` bytes or more is cached, the sum is the real one
(`Exact`). Main theorems: **`run_accounting`** and, for the rectangle that
wraps around, `accounting_wraps`.
-/
import Farland.Channels.Rdpgfx.Server

namespace Farland
namespace Channels
namespace Rdpgfx

open List GfxServer

/-! ### Slots -/

/-- Slot `i` (counted from 0) is used. -/
def Used (cache : List CacheEntry) (i : ℕ) : Prop := ∃ e, cache[i]? = some e ∧ e.used = true

instance (cache : List CacheEntry) (i : ℕ) : Decidable (Used cache i) :=
  match h : cache[i]? with
  | none => isFalse fun ⟨_, h1, _⟩ => by simp [h] at h1
  | some e =>
    if hu : e.used = true then isTrue ⟨e, h, hu⟩
    else isFalse fun ⟨e', h1, h2⟩ => hu (by obtain rfl : e = e' := by simpa [h] using h1
                                            exact h2)

/-- The bytes of the used slots, as the entries record them. -/
def recordedBytes (e : CacheEntry) : ℕ := if e.used then e.bytes else 0

/-- The bytes of the used slots, as their sizes say. -/
def realBytes (e : CacheEntry) : ℕ := if e.used then e.width * e.height * bytesPerPixel else 0

variable {cache : List CacheEntry}

theorem used_set {i j : ℕ} {e : CacheEntry} (hi : i < cache.length) :
    Used (cache.set i e) j ↔ if j = i then e.used = true else Used cache j := by
  unfold Used
  by_cases hj : j = i
  · subst hj
    rw [getElem?_set_self hi]
    simp
  · rw [if_neg hj, getElem?_set_ne (Ne.symm hj)]

theorem not_used_replicate (n i : ℕ) : ¬ Used (List.replicate n {}) i := by
  rintro ⟨e, he, hu⟩
  rw [getElem?_replicate] at he
  split_ifs at he
  obtain rfl : ({} : CacheEntry) = e := by simpa using he
  exact absurd hu (by decide)

theorem sum_map_set {α : Type} (f : α → ℕ) : ∀ (l : List α) (i : ℕ) (a : α) (hi : i < l.length),
    ((l.set i a).map f).sum + f l[i] = (l.map f).sum + f a
  | x :: l, 0, a, _ => by simp; omega
  | x :: l, i + 1, a, hi => by
    have := sum_map_set f l i a (by simpa using hi)
    simp only [set_cons_succ, map_cons, sum_cons, getElem_cons_succ]
    omega

/-- The search finds the slot `m` when everything from `index` up to it is
used. -/
theorem freeSlot_eq {m : ℕ} (hm : m < cache.length) (hfree : ¬ Used cache m) :
    ∀ fuel index : ℕ, index ≤ m → m < index + fuel → (∀ j, index ≤ j → j < m → Used cache j) →
      freeSlot cache fuel index = some m
  | 0, index, h1, h2, _ => absurd h2 (by omega)
  | fuel + 1, index, h1, h2, hused => by
    have hi : index < cache.length := by omega
    rw [freeSlot, getElem?_eq_getElem hi]
    rcases eq_or_lt_of_le h1 with rfl | hlt
    · have : cache[index].used ≠ true := fun h => hfree ⟨_, getElem?_eq_getElem hi, h⟩
      simp [this]
    · obtain ⟨e, he, hu⟩ := hused index le_rfl hlt
      rw [getElem?_eq_getElem hi, Option.some.injEq] at he
      simp only [he, hu, if_true]
      rw [Nat.mod_eq_of_lt (by omega)]
      exact freeSlot_eq hm hfree fuel (index + 1) (by omega) (by omega) fun j h3 h4 => hused j (by omega) h4

/-- **From a hint below which every slot is used, the search ends at the
lowest free slot.** -/
theorem freeSlot_spec {hint : ℕ} (hbelow : ∀ i < hint, Used cache i)
    (hcount : cache.countP CacheEntry.used < cache.length) :
    ∃ m, freeSlot cache cache.length hint = some m ∧ m < cache.length ∧ ¬ Used cache m ∧ ∀ j < m, Used cache j := by
  have hex : ∃ m, m < cache.length ∧ ¬ Used cache m := by
    by_contra hall
    push Not at hall
    refine absurd hcount (not_lt.mpr (le_of_eq (Eq.symm ?_)))
    rw [countP_eq_length]
    intro e he
    obtain ⟨i, hi, rfl⟩ := getElem_of_mem he
    obtain ⟨e', he', hu⟩ := hall i hi
    rw [getElem?_eq_getElem hi, Option.some.injEq] at he'
    rw [he']
    exact hu
  obtain ⟨hm, hfree⟩ := Nat.find_spec hex
  have hmin : ∀ j < Nat.find hex, Used cache j := by
    intro j hj
    have := Nat.find_min hex hj
    by_contra hnot
    exact this ⟨by omega, hnot⟩
  refine ⟨Nat.find hex, ?_, hm, hfree, hmin⟩
  have hhint : hint ≤ Nat.find hex := by
    by_contra hlt
    exact hfree (hbelow _ (by omega))
  exact freeSlot_eq hm hfree _ _ hhint (by omega) fun j _ hj => hmin j hj

/-! ### Surface ids -/

theorem lowestUnused_spec : ∀ (ids : List ℕ) (id : ℕ), ids.Pairwise (· < ·) → (∀ k ∈ ids, id ≤ k) →
    lowestUnused id ids ∉ ids ∧ id ≤ lowestUnused id ids ∧ (∀ j, id ≤ j → j < lowestUnused id ids → j ∈ ids)
  | [], id, _, _ => ⟨by simp, le_rfl, fun j h1 h2 => by rw [lowestUnused] at h2; omega⟩
  | k :: ids, id, hsorted, hge => by
    rw [pairwise_cons] at hsorted
    rw [lowestUnused]
    by_cases hk : k = id
    · subst hk
      rw [if_neg (by simp)]
      obtain ⟨h1, h2, h3⟩ := lowestUnused_spec ids (k + 1) hsorted.2 fun j hj => hsorted.1 j hj
      refine ⟨?_, by omega, fun j hj hlt => ?_⟩
      · rw [mem_cons, not_or]
        exact ⟨by omega, h1⟩
      · by_cases hjk : j = k
        · subst hjk
          exact mem_cons_self ..
        · exact mem_cons_of_mem _ (h3 j (by omega) hlt)
    · rw [if_pos hk]
      have hlt : id < k := lt_of_le_of_ne (hge k (mem_cons_self ..)) (Ne.symm hk)
      refine ⟨?_, le_rfl, fun j h1 h2 => absurd h1 (by omega)⟩
      rw [mem_cons, not_or]
      exact ⟨by omega, fun hmem => absurd (hsorted.1 id hmem) (by omega)⟩

variable {surface : Surface}

theorem mem_insertSurface {id : ℕ} {p : ℕ × Surface} : ∀ (l : List (ℕ × Surface)),
    p ∈ insertSurface id surface l ↔ p = (id, surface) ∨ p ∈ l
  | [] => by simp [insertSurface]
  | (k, v) :: l => by
    rw [insertSurface]
    split_ifs
    · simp
    · rw [mem_cons, mem_insertSurface l, mem_cons]
      tauto

theorem insertSurface_sorted {id : ℕ} : ∀ (l : List (ℕ × Surface)),
    (l.map Prod.fst).Pairwise (· < ·) → id ∉ l.map Prod.fst →
    ((insertSurface id surface l).map Prod.fst).Pairwise (· < ·)
  | [], _, _ => by simp [insertSurface]
  | (k, v) :: l, hs, hid => by
    rw [map_cons, pairwise_cons] at hs
    rw [map_cons, mem_cons, not_or] at hid
    rw [insertSurface]
    split_ifs with hlt
    · rw [map_cons, map_cons, pairwise_cons, pairwise_cons]
      refine ⟨fun j hj => ?_, hs⟩
      rcases mem_cons.mp hj with rfl | hj
      · exact hlt
      · exact hlt.trans (hs.1 j hj)
    · rw [map_cons, pairwise_cons]
      refine ⟨fun j hj => ?_, insertSurface_sorted l hs.2 hid.2⟩
      rw [mem_map] at hj
      obtain ⟨p, hp, rfl⟩ := hj
      rcases (mem_insertSurface l).mp hp with rfl | hp
      · simp only at hid ⊢
        omega
      · exact hs.1 _ (mem_map_of_mem hp)

/-! ### The invariant -/

/-- The part of the state that the accounting is about. -/
structure View where
  state : GfxState
  negotiated : Option Negotiated
  surfaces : List (ℕ × Surface)
  codecContexts : List (ℕ × ℕ)
  cache : List CacheEntry
  cacheKeys : List (ℕ × ℕ)
  cacheBytes : ℕ
  cacheHint : ℕ

def GfxServer.view (s : GfxServer) : View :=
  ⟨s.state, s.negotiated, s.surfaces, s.codecContexts, s.cache, s.cacheKeys, s.cacheBytes, s.cacheHint⟩

variable {n : Negotiated} {surfaceId : ℕ} {v : View} {r : GfxServer × Unit} {rect : Rect16}

/-- The limits that go with a negotiated cache. -/
structure Limits (n : Negotiated) : Prop where
  pos : 1 ≤ n.maxCacheSlots
  slots : n.maxCacheSlots < 2 ^ 16
  bytes : n.maxCacheBytes < 2 ^ 32

/-- The cache and its map, for a cache of `n.maxCacheSlots` slots whose used
entries satisfy `P`. -/
structure CacheInv (P : CacheEntry → Prop) (n : Negotiated) (v : View) : Prop where
  sized : v.cache = [] ∨ v.cache.length = n.maxCacheSlots
  nodup : (v.cacheKeys.map Prod.fst).Nodup
  mem : ∀ key slot, (key, slot) ∈ v.cacheKeys ↔
    ∃ i e, slot = i + 1 ∧ v.cache[i]? = some e ∧ e.used = true ∧ e.key = key
  count : v.cache.countP CacheEntry.used = v.cacheKeys.length
  slots : v.cacheKeys.length ≤ n.maxCacheSlots
  sum : v.cacheBytes = (v.cache.map recordedBytes).sum
  entry : ∀ e ∈ v.cache, e.used = true → e.bytes = e.width * e.height * bytesPerPixel % 2 ^ 32 ∧ P e
  bytes : v.cacheBytes ≤ n.maxCacheBytes
  below : ∀ i < v.cacheHint, Used v.cache i
  hint : v.cache = [] ∧ v.cacheHint = 0 ∨ v.cacheHint < v.cache.length

/-- The invariant of the server. -/
structure Inv (P : CacheEntry → Prop) (v : View) : Prop where
  waiting : v.state = .waitCapsAdvertise → v.negotiated = none
  ready : v.state = .ready → v.negotiated ≠ none
  fresh : v.negotiated = none → v.cache = [] ∧ v.cacheKeys = [] ∧ v.cacheBytes = 0 ∧ v.cacheHint = 0
  limits : ∀ n, v.negotiated = some n → Limits n
  cache : ∀ n, v.negotiated = some n → CacheInv P n v
  sorted : (v.surfaces.map Prod.fst).Pairwise (· < ·)
  contexts : ∀ p ∈ v.codecContexts, p.1 ∈ v.surfaces.map Prod.fst

variable {P : CacheEntry → Prop}

theorem CacheInv.empty (hc : v.cache = []) (hk : v.cacheKeys = []) (hb : v.cacheBytes = 0)
    (hh : v.cacheHint = 0) : CacheInv P n v where
  sized := Or.inl hc
  nodup := by rw [hk]; simp
  mem := by
    intro key slot
    rw [hk, hc]
    simp
  count := by rw [hk, hc]; rfl
  slots := by rw [hk]; exact Nat.zero_le _
  sum := by rw [hb, hc]; rfl
  entry := by rw [hc]; simp
  bytes := by rw [hb]; exact Nat.zero_le _
  below := by
    intro i hi
    rw [hh] at hi
    exact absurd hi (Nat.not_lt_zero i)
  hint := Or.inl ⟨hc, hh⟩

theorem inv_new (config : GfxServerConfig) : Inv P (view { config := config }) where
  waiting := fun _ => rfl
  ready := fun h => absurd h (by simp [view])
  fresh := fun _ => ⟨rfl, rfl, rfl, rfl⟩
  limits := fun n h => absurd h (by simp [view])
  cache := fun n h => absurd h (by simp [view])
  sorted := by simp [view]
  contexts := by simp [view]

/-- The cache part of a view. -/
def View.sameCache (v w : View) : Prop :=
  w.cache = v.cache ∧ w.cacheKeys = v.cacheKeys ∧ w.cacheBytes = v.cacheBytes ∧ w.cacheHint = v.cacheHint

theorem CacheInv.congr {w : View} (h : v.sameCache w) (hv : CacheInv P n v) : CacheInv P n w := by
  obtain ⟨h1, h2, h3, h4⟩ := h
  obtain ⟨a, b, c, d, e, f, g, i, j, k⟩ := hv
  rw [← h1] at a c d f g j k
  rw [← h2] at b c d e
  rw [← h3] at f i
  rw [← h4] at j k
  exact ⟨a, b, c, d, e, f, g, i, j, k⟩

/-- A step that leaves the cache and the negotiation alone keeps the invariant
when the surfaces stay sorted and the contexts stay on them. -/
theorem Inv.of_sameCache {w : View} (hv : Inv P v) (hstate : w.state = v.state) (hneg : w.negotiated = v.negotiated)
    (hcache : v.sameCache w) (hsorted : (w.surfaces.map Prod.fst).Pairwise (· < ·))
    (hcontexts : ∀ p ∈ w.codecContexts, p.1 ∈ w.surfaces.map Prod.fst) : Inv P w where
  waiting := by rw [hstate, hneg]; exact hv.waiting
  ready := by rw [hstate, hneg]; exact hv.ready
  fresh := by
    obtain ⟨h1, h2, h3, h4⟩ := hcache
    rw [hneg, h1, h2, h3, h4]
    exact hv.fresh
  limits := by rw [hneg]; exact hv.limits
  cache := by
    rw [hneg]
    exact fun n hn => (hv.cache n hn).congr hcache
  sorted := hsorted
  contexts := hcontexts

/-- The view after a failure. -/
theorem Inv.fail (hv : Inv P v) : Inv P { v with state := .failed } where
  waiting := fun h => absurd h (by simp)
  ready := fun h => absurd h (by simp)
  fresh := hv.fresh
  limits := hv.limits
  cache := fun n hn => CacheInv.congr (v := v) ⟨rfl, rfl, rfl, rfl⟩ (hv.cache n hn)
  sorted := hv.sorted
  contexts := hv.contexts

/-! ### Client messages keep it -/

variable {s s' : GfxServer}

theorem send_view {pdu : Pdu} (h : s.send pdu = some s') : s'.view = s.view := by
  unfold send at h
  simp only [bind, Option.bind_eq_some_iff, pure, Option.some.injEq] at h
  obtain ⟨_, _, rfl⟩ := h
  rfl

theorem derive_limits (version flags : ℕ) (config : GfxServerConfig) : Limits (derive version flags config) := by
  constructor <;> simp only [derive] <;> split_ifs <;> decide

theorem negotiateFrom_limits {sets : List CapabilitySet} {config : GfxServerConfig} :
    ∀ {versions : List ℕ}, negotiateFrom sets config versions = some n → Limits n
  | [], h => by simp [negotiateFrom] at h
  | version :: versions, h => by
    rw [negotiateFrom] at h
    split_ifs at h
    · exact negotiateFrom_limits h
    · cases hf : sets.find? (·.version = version) with
      | none =>
        rw [hf] at h
        exact negotiateFrom_limits h
      | some set =>
        rw [hf, Option.some.injEq] at h
        rw [← h]
        exact derive_limits ..

/-- Capabilities are confirmed with the cache empty: before the first Caps
Advertise nothing was cached, and a repeated one resets the protocol. -/
theorem confirm_inv (hn : Limits n) (hs : (v.surfaces.map Prod.fst).Pairwise (· < ·))
    (hctx : ∀ p ∈ v.codecContexts, p.1 ∈ v.surfaces.map Prod.fst)
    (hempty : v.cache = [] ∧ v.cacheKeys = [] ∧ v.cacheBytes = 0 ∧ v.cacheHint = 0) :
    Inv P { v with negotiated := some n, state := .ready } where
  waiting := fun h => absurd h (by simp)
  ready := fun _ => by simp
  fresh := fun h => absurd h (by simp)
  limits := fun m hm => by
    obtain rfl : n = m := by simpa using hm
    exact hn
  cache := fun m _ => CacheInv.empty hempty.1 hempty.2.1 hempty.2.2.1 hempty.2.2.2
  sorted := hs
  contexts := hctx

theorem resetProtocol_inv (hv : Inv P s.view) : Inv P s.resetProtocol.view where
  waiting := hv.waiting
  ready := hv.ready
  fresh := fun _ => ⟨rfl, rfl, rfl, rfl⟩
  limits := hv.limits
  cache := fun n _ => CacheInv.empty rfl rfl rfl rfl
  sorted := by simp [view, resetProtocol]
  contexts := by simp [view, resetProtocol]

theorem onCapsAdvertise_inv {sets : List CapabilitySet} (hv : Inv P s.view) (hne : s.state ≠ .failed)
    (h : s.onCapsAdvertise sets = some s') : Inv P s'.view := by
  unfold onCapsAdvertise at h
  simp only at h
  split_ifs at h with hearly hreset
  · rw [Option.some.injEq] at h
    subst h
    exact hv.fail
  · cases hneg : negotiate sets s.resetProtocol.config with
    | none =>
      rw [hneg, Option.some.injEq] at h
      subst h
      exact (resetProtocol_inv hv).fail
    | some n =>
      rw [hneg] at h
      simp only [bind, Option.bind_eq_some_iff, pure, Option.some.injEq] at h
      obtain ⟨s1, hsend, rfl⟩ := h
      have hview := send_view hsend
      have hr := resetProtocol_inv hv
      change Inv P s1.view
      rw [hview]
      exact confirm_inv (v := s.resetProtocol.view) (negotiateFrom_limits hneg) hr.sorted hr.contexts ⟨rfl, rfl, rfl,
        rfl⟩
  · have hwait : s.view.negotiated = none := by
      apply hv.waiting
      change s.state = _
      cases hst : s.state with
      | waitCapsAdvertise => rfl
      | ready => exact absurd (by rw [hst]; rfl) hreset
      | failed => exact absurd hst hne
    cases hneg : negotiate sets s.config with
    | none =>
      rw [hneg, Option.some.injEq] at h
      subst h
      exact hv.fail
    | some n =>
      rw [hneg] at h
      simp only [bind, Option.bind_eq_some_iff, pure, Option.some.injEq] at h
      obtain ⟨s1, hsend, rfl⟩ := h
      have hview := send_view hsend
      change Inv P s1.view
      rw [hview]
      exact confirm_inv (v := s.view) (negotiateFrom_limits hneg) hv.sorted hv.contexts (hv.fresh hwait)

theorem handlePdu_inv {bytes : List UInt8} (hv : Inv P s.view) (hne : s.state ≠ .failed)
    (h : s.handlePdu bytes = some s') : Inv P s'.view := by
  unfold handlePdu at h
  split at h
  · rw [Option.some.injEq] at h
    subst h
    exact hv.fail
  · exact onCapsAdvertise_inv hv hne h
  · split_ifs at h with hready
    · rw [Option.some.injEq] at h
      subst h
      exact hv.fail
    · split at h
      · rw [Option.some.injEq] at h
        subst h
        exact hv
      · rw [Option.some.injEq] at h
        subst h
        exact hv
      · unfold onCacheImportOffer at h
        simp only [bind, Option.bind_eq_some_iff, pure, Option.some.injEq] at h
        obtain ⟨s1, hsend, rfl⟩ := h
        change Inv P s1.view
        rw [send_view hsend]
        exact hv
      · rw [Option.some.injEq] at h
        subst h
        exact hv.fail

theorem receiveLoop_inv : ∀ (fuel : ℕ) (s : GfxServer) (rest : List UInt8) {s' : GfxServer} {rest' : List UInt8},
    Inv P s.view → receiveLoop fuel s rest = some (s', rest') → Inv P s'.view
  | 0, s, rest, s', rest', hv, h => by
    obtain ⟨rfl, -⟩ : s = s' ∧ rest = rest' := by simpa [receiveLoop] using h
    exact hv
  | fuel + 1, s, rest, s', rest', hv, h => by
    rw [receiveLoop] at h
    split_ifs at h with hfailed
    · obtain ⟨rfl, -⟩ : s = s' ∧ rest = rest' := by simpa using h
      exact hv
    · split at h
      · obtain ⟨rfl, -⟩ := Prod.mk.inj (Option.some.inj h)
        exact hv.fail
      · obtain ⟨rfl, -⟩ := Prod.mk.inj (Option.some.inj h)
        exact hv
      · split at h
        · exact absurd h (by simp)
        · rename_i s1 hpdu
          exact receiveLoop_inv fuel s1 _ (handlePdu_inv hv hfailed hpdu) h

theorem receive_inv {bytes : List UInt8} (hv : Inv P s.view) (h : s.receive bytes = some s') : Inv P s'.view := by
  unfold receive at h
  split_ifs at h with hfailed
  · rw [Option.some.injEq] at h
    subst h
    exact hv
  · simp only at h
    split at h
    · exact absurd h (by simp)
    · rename_i s1 rest hloop
      rw [Option.some.injEq] at h
      subst h
      change Inv P s1.view
      exact receiveLoop_inv _ { s with input := s.input ++ bytes } _ hv hloop

/-! ### Commands keep it -/

theorem whenUsable_cases {α : Type} {otherwise : α} {body : Option (GfxServer × α)} {r : GfxServer × α}
    (h : s.whenUsable otherwise body = some r) :
    s.state = .failed ∧ r = (s, otherwise) ∨ s.state = .ready ∧ body = some r := by
  unfold whenUsable usable at h
  by_cases hf : s.state = .failed
  · rw [if_pos hf] at h
    exact Or.inl ⟨hf, by simpa using h.symm⟩
  · rw [if_neg hf] at h
    by_cases hr : s.state = .ready
    · simp only [hr] at h
      exact Or.inr ⟨hr, h⟩
    · simp [assert, hr] at h

/-- Commands that only send a message or open and close frames. -/
def Command.quiet : Command → Bool
  | .takeOutput | .pollEvent | .mapSurfaceToOutput .. | .mapSurfaceToScaledOutput .. | .mapSurfaceToWindow ..
  | .mapSurfaceToScaledWindow .. | .startFrame .. | .endFrame | .wireToSurface1 .. | .solidFill ..
  | .surfaceToSurface .. | .cacheToSurface .. => true
  | _ => false

theorem view_of_usable {α : Type} {otherwise : α} {body : Option (GfxServer × α)} {r : GfxServer × α}
    (h : s.whenUsable otherwise body = some r) (hbody : body = some r → r.1.view = s.view) : r.1.view = s.view := by
  rcases whenUsable_cases h with ⟨_, rfl⟩ | ⟨_, h⟩
  · rfl
  · exact hbody h

theorem quiet_view {c : Command} (hc : c.quiet = true) (h : step s c = some s') : s'.view = s.view := by
  cases c with
  | takeOutput | pollEvent =>
    obtain rfl := Option.some.inj h
    rfl
  | mapSurfaceToOutput | mapSurfaceToScaledOutput | mapSurfaceToWindow | mapSurfaceToScaledWindow | startFrame
  | wireToSurface1 | solidFill | surfaceToSurface | cacheToSurface =>
    obtain ⟨r, hr, rfl⟩ := Option.map_eq_some_iff.mp h
    refine view_of_usable hr fun h => ?_
    -- the last step before the result is the message
    repeat
      replace h := Option.bind_eq_some_iff.mp h
      obtain ⟨_, hsend, h⟩ := h
    cases h
    exact (send_view hsend).trans rfl
  | endFrame =>
    obtain ⟨r, hr, rfl⟩ := Option.map_eq_some_iff.mp h
    refine view_of_usable hr fun h => ?_
    simp only [bind, Option.bind_eq_some_iff, pure, Option.some.injEq] at h
    obtain ⟨_, _, s1, hsend, rfl⟩ := h
    have hview : s1.view = s.view := (send_view hsend).trans rfl
    split_ifs
    · exact hview
    · exact hview
  | _ => simp [Command.quiet] at hc

theorem surface_mem (h : s.surface surfaceId = some surface) : surfaceId ∈ s.surfaces.map Prod.fst := by
  unfold GfxServer.surface at h
  rw [lookup_eq_some_iff] at h
  obtain ⟨l₁, l₂, hl, _⟩ := h
  rw [hl]
  simp

theorem resetGraphics_inv {width height : ℕ} {monitors : List MonitorDef} (hv : Inv P s.view)
    (h : s.resetGraphics width height monitors = some r) : Inv P r.1.view := by
  rcases whenUsable_cases h with ⟨_, rfl⟩ | ⟨_, h⟩
  · exact hv
  simp only [bind, Option.bind_eq_some_iff, pure, Option.some.injEq] at h
  obtain ⟨_, _, _, _, _, _, s1, hsend, rfl⟩ := h
  have hview := send_view hsend
  have hv1 : Inv P s1.view := by rw [hview]; exact hv
  exact hv1.of_sameCache rfl rfl ⟨rfl, rfl, rfl, rfl⟩ hv1.sorted (by simp [view])

/-- `create_surface` returns the lowest id not in use, and keeps the
invariant. -/
theorem createSurface_spec {width height format : ℕ} {r : GfxServer × ℕ} (hv : Inv P s.view)
    (h : s.createSurface width height format = some r) : Inv P r.1.view ∧
      (s.state = .ready → r.2 ∉ s.surfaces.map Prod.fst ∧ ∀ j < r.2, j ∈ s.surfaces.map Prod.fst) := by
  rcases whenUsable_cases h with ⟨hfailed, rfl⟩ | ⟨_, h⟩
  · exact ⟨hv, fun hready => absurd (hfailed.symm.trans hready) (by decide)⟩
  simp only [bind, Option.bind_eq_some_iff, pure, Option.some.injEq] at h
  obtain ⟨_, _, _, _, _, _, s1, hsend, rfl⟩ := h
  obtain ⟨hnew, _, hlow⟩ := lowestUnused_spec (s.surfaces.map Prod.fst) 0 hv.sorted fun k _ => Nat.zero_le k
  refine ⟨?_, fun _ => ⟨hnew, fun j hj => hlow j (Nat.zero_le j) hj⟩⟩
  rw [send_view hsend]
  refine hv.of_sameCache rfl rfl ⟨rfl, rfl, rfl, rfl⟩ (insertSurface_sorted _ hv.sorted hnew) fun p hp => ?_
  have := hv.contexts p hp
  rw [mem_map] at this ⊢
  obtain ⟨q, hq, hqp⟩ := this
  exact ⟨q, (mem_insertSurface _).mpr (Or.inr hq), hqp⟩

theorem deleteSurface_inv (hv : Inv P s.view) (h : s.deleteSurface surfaceId = some r) : Inv P r.1.view := by
  rcases whenUsable_cases h with ⟨_, rfl⟩ | ⟨_, h⟩
  · exact hv
  simp only [bind, Option.bind_eq_some_iff, pure, Option.some.injEq] at h
  obtain ⟨_, _, s1, hsend, rfl⟩ := h
  rw [send_view hsend]
  have hfilter : (s.surfaces.filter (·.1 ≠ surfaceId)).map Prod.fst = (s.surfaces.map Prod.fst).filter
    (· ≠ surfaceId) := by
    rw [filter_map]
    rfl
  refine hv.of_sameCache rfl rfl ⟨rfl, rfl, rfl, rfl⟩ ?_ fun p hp => ?_
  · change ((s.surfaces.filter (·.1 ≠ surfaceId)).map Prod.fst).Pairwise (· < ·)
    rw [hfilter]
    exact hv.sorted.filter _
  · change p ∈ s.codecContexts.filter (·.1 ≠ surfaceId) at hp
    change p.1 ∈ (s.surfaces.filter (·.1 ≠ surfaceId)).map Prod.fst
    rw [mem_filter] at hp
    rw [hfilter, mem_filter]
    exact ⟨hv.contexts p hp.1, hp.2⟩

theorem wireToSurface2_inv {codecId context format : ℕ} {data : List UInt8}
    (hv : Inv P s.view) (h : s.wireToSurface2 surfaceId codecId context format data = some r) : Inv P r.1.view := by
  rcases whenUsable_cases h with ⟨_, rfl⟩ | ⟨_, h⟩
  · exact hv
  simp only [bind, Option.bind_eq_some_iff, pure, Option.some.injEq] at h
  obtain ⟨surface, hsurface, _, _, _, _, _, _, _, _, s1, hsend, rfl⟩ := h
  rw [send_view hsend]
  refine hv.of_sameCache rfl rfl ⟨rfl, rfl, rfl, rfl⟩ hv.sorted fun p hp => ?_
  change p ∈ s.codecContexts.insert (surfaceId, context) at hp
  rcases mem_insert_iff.mp hp with rfl | hp
  · exact surface_mem hsurface
  · exact hv.contexts p hp

theorem deleteEncodingContext_inv {context : ℕ} (hv : Inv P s.view)
    (h : s.deleteEncodingContext surfaceId context = some r) : Inv P r.1.view := by
  rcases whenUsable_cases h with ⟨_, rfl⟩ | ⟨_, h⟩
  · exact hv
  simp only [bind, Option.bind_eq_some_iff, pure, Option.some.injEq] at h
  obtain ⟨_, _, s1, hsend, rfl⟩ := h
  rw [send_view hsend]
  exact hv.of_sameCache rfl rfl ⟨rfl, rfl, rfl, rfl⟩ hv.sorted fun p hp => hv.contexts p (mem_of_mem_erase hp)

/-! ### Inserting into the cache and evicting from it -/

/-- The cache before an insertion: as it was, or sized on first use. -/
theorem CacheInv.sizedCache (hn : Limits n) (hv : CacheInv P n s.view) :
    CacheInv P n { s.view with cache := s.sizedCache n.maxCacheSlots } ∧
      (s.sizedCache n.maxCacheSlots).length = n.maxCacheSlots ∧
      ∀ i, Used (s.sizedCache n.maxCacheSlots) i ↔ Used s.cache i := by
  unfold GfxServer.sizedCache
  by_cases hc : s.cache = []
  · rw [if_pos hc]
    have hk : s.cacheKeys = [] := by
      have := hv.count
      change s.cache.countP _ = s.cacheKeys.length at this
      rw [hc] at this
      exact length_eq_zero_iff.mp this.symm
    have hb : s.cacheBytes = 0 := by
      have := hv.sum
      change s.cacheBytes = (s.cache.map recordedBytes).sum at this
      rw [this, hc]
      rfl
    have hh : s.cacheHint = 0 := by
      rcases hv.hint with h | h
      · exact h.2
      · change s.cacheHint < s.cache.length at h
        rw [hc] at h
        exact absurd h (Nat.not_lt_zero _)
    refine ⟨⟨Or.inr (by simp), hv.nodup, ?_, ?_, hv.slots, ?_, ?_, hv.bytes, ?_, Or.inr ?_⟩, by simp, fun i => ?_⟩
    · intro key slot
      change (key, slot) ∈ s.cacheKeys ↔ _
      rw [hk]
      refine ⟨fun h => absurd h (by simp), ?_⟩
      rintro ⟨i, e, _, he, hu, _⟩
      exact absurd ⟨e, he, hu⟩ (not_used_replicate n.maxCacheSlots i)
    · change _ = s.cacheKeys.length
      rw [hk, countP_replicate]
      rfl
    · change s.cacheBytes = _
      rw [hb, map_replicate, sum_replicate]
      rfl
    · intro e he hu
      rw [eq_of_mem_replicate he] at hu
      exact absurd hu (by decide)
    · intro i hi
      change i < s.cacheHint at hi
      omega
    · change s.cacheHint < _
      rw [hh, length_replicate]
      exact hn.pos
    · rw [hc]
      exact ⟨fun h => absurd h (not_used_replicate _ i), fun ⟨e, he, _⟩ => absurd he (by simp)⟩
  · rw [if_neg hc]
    refine ⟨hv, ?_, fun i => Iff.rfl⟩
    rcases hv.sized with h | h
    · exact absurd h hc
    · exact h

variable {key : ℕ}

theorem CacheInv.insert {m : ℕ} {e : CacheEntry} (hn : Limits n) (hv : CacheInv P n v)
    (hlen : v.cache.length = n.maxCacheSlots) (hm : m < v.cache.length) (hfree : ¬ Used v.cache m)
    (hbelow : ∀ j < m, Used v.cache j) (hkey : key ∉ v.cacheKeys.map Prod.fst)
    (hroom : v.cacheKeys.length < n.maxCacheSlots) (hbytes : v.cacheBytes + e.bytes ≤ n.maxCacheBytes)
    (hused : e.used = true) (hek : e.key = key) (he : e.bytes = e.width * e.height * bytesPerPixel % 2 ^ 32 ∧ P e) :
    CacheInv P n { v with
      cache := v.cache.set m e
      cacheHint := (m + 1) % v.cache.length
      cacheKeys := (key, (m + 1) % 2 ^ 16) :: v.cacheKeys
      cacheBytes := (v.cacheBytes + e.bytes) % 2 ^ 64 } := by
  have hslots := hn.slots
  have hnbytes := hn.bytes
  have hslot : (m + 1) % 2 ^ 16 = m + 1 := Nat.mod_eq_of_lt (by omega)
  have hsum64 : (v.cacheBytes + e.bytes) % 2 ^ 64 = v.cacheBytes + e.bytes := Nat.mod_eq_of_lt (by omega)
  have hold : v.cache[m].used = false := by
    cases hu : v.cache[m].used with
    | false => rfl
    | true => exact absurd ⟨_, getElem?_eq_getElem hm, hu⟩ hfree
  rw [hslot, hsum64]
  refine ⟨Or.inr (by simpa using hlen), ?_, ?_, ?_, ?_, ?_, ?_, hbytes, ?_, Or.inr ?_⟩
  · rw [map_cons, nodup_cons]
    exact ⟨hkey, hv.nodup⟩
  · intro key' slot
    simp only [mem_cons, Prod.mk.injEq]
    rw [hv.mem]
    constructor
    · rintro (⟨rfl, rfl⟩ | ⟨i, e', rfl, he', hu, hk⟩)
      · exact ⟨m, e, rfl, getElem?_set_self hm, hused, hek⟩
      · have hne : m ≠ i := by
          rintro rfl
          exact hfree ⟨e', he', hu⟩
        exact ⟨i, e', rfl, by rw [getElem?_set_ne hne]; exact he', hu, hk⟩
    · rintro ⟨i, e', rfl, he', hu, rfl⟩
      by_cases hi : m = i
      · subst hi
        rw [getElem?_set_self hm, Option.some.injEq] at he'
        subst he'
        exact Or.inl ⟨hek, rfl⟩
      · rw [getElem?_set_ne hi] at he'
        exact Or.inr ⟨i, e', rfl, he', hu, rfl⟩
  · have hcount := hv.count
    simp only [length_cons]
    rw [countP_set hm, hold, hused]
    simp only [Bool.false_eq_true, if_false, if_true]
    omega
  · simp only [length_cons]
    omega
  · have hset := sum_map_set recordedBytes v.cache m e hm
    have hsum := hv.sum
    have hold' : recordedBytes v.cache[m] = 0 := by simp [recordedBytes, hold]
    have hnew : recordedBytes e = e.bytes := by simp [recordedBytes, hused]
    simp only
    omega
  · intro e' he' hu
    rcases mem_or_eq_of_mem_set he' with h | rfl
    · exact hv.entry e' h hu
    · exact he
  · intro i hi
    have hi' : i < m + 1 := lt_of_lt_of_le hi (Nat.mod_le _ _)
    rw [used_set hm]
    by_cases him : i = m
    · rw [if_pos him]
      exact hused
    · rw [if_neg him]
      exact hbelow i (by omega)
  · rw [length_set]
    exact Nat.mod_lt _ (by omega)

theorem CacheInv.evict {i : ℕ} {e : CacheEntry} (hn : Limits n) (hv : CacheInv P n v)
    (he : v.cache[i]? = some e) (hu : e.used = true) :
    CacheInv P n { v with
      cacheKeys := v.cacheKeys.filter (·.1 ≠ e.key)
      cacheBytes := (v.cacheBytes + 2 ^ 64 - e.bytes) % 2 ^ 64
      cache := v.cache.set i {}
      cacheHint := min v.cacheHint i } := by
  obtain ⟨hi, hget⟩ := List.getElem?_eq_some_iff.mp he
  have hset := sum_map_set recordedBytes v.cache i {} hi
  have hsum := hv.sum
  rw [hget] at hset
  have hrec : recordedBytes e = e.bytes := by simp [recordedBytes, hu]
  have hnone : recordedBytes {} = 0 := rfl
  have hbytes := hv.bytes
  have hnbytes := hn.bytes
  -- only one pair has the evicted key
  have hmem : (e.key, i + 1) ∈ v.cacheKeys := (hv.mem _ _).mpr ⟨i, e, rfl, he, hu, rfl⟩
  have hfilter : (v.cacheKeys.filter (·.1 ≠ e.key)).length + 1 = v.cacheKeys.length := by
    have hone : v.cacheKeys.countP (fun p => decide (p.1 = e.key)) = 1 := by
      have := count_eq_one_of_mem hv.nodup (mem_map_of_mem (f := Prod.fst) hmem)
      rw [List.count, countP_map] at this
      rw [← this]
      refine countP_congr fun p _ => ?_
      simp
    have := length_eq_countP_add_countP (l := v.cacheKeys) fun p => decide (p.1 = e.key)
    rw [hone] at this
    rw [← countP_eq_length_filter, this, Nat.add_comm]
    congr 1
    refine countP_congr fun p _ => ?_
    simp
  have hslots := hv.slots
  refine ⟨?_, ?_, ?_, ?_, ?_, ?_, ?_, ?_, ?_, Or.inr ?_⟩
  · rcases hv.sized with h | h
    · rw [h] at hi
      exact absurd hi (Nat.not_lt_zero i)
    · exact Or.inr (by simpa using h)
  · exact hv.nodup.sublist (filter_sublist.map Prod.fst)
  · intro key slot
    simp only [mem_filter]
    rw [hv.mem]
    constructor
    · rintro ⟨⟨j, e', rfl, he', hu', rfl⟩, hne⟩
      have hij : i ≠ j := by
        rintro rfl
        rw [he, Option.some.injEq] at he'
        subst he'
        simp at hne
      exact ⟨j, e', rfl, by rw [getElem?_set_ne hij]; exact he', hu', rfl⟩
    · rintro ⟨j, e', rfl, he', hu', rfl⟩
      by_cases hij : i = j
      · subst hij
        rw [getElem?_set_self hi, Option.some.injEq] at he'
        subst he'
        exact absurd hu' (by decide)
      · rw [getElem?_set_ne hij] at he'
        refine ⟨⟨j, e', rfl, he', hu', rfl⟩, ?_⟩
        -- the same key in two slots would be two pairs with one key
        have hmem' : (e'.key, j + 1) ∈ v.cacheKeys := (hv.mem _ _).mpr ⟨j, e', rfl, he', hu', rfl⟩
        by_contra hkey
        simp only [decide_not, Bool.not_eq_eq_eq_not, Bool.not_true, decide_eq_false_iff_not, not_not] at hkey
        have := inj_on_of_nodup_map hv.nodup hmem' hmem hkey
        simp only [Prod.mk.injEq] at this
        omega
  · have hcount := hv.count
    rw [countP_set hi, hget, hu]
    simp only [Bool.false_eq_true, if_false, if_true]
    omega
  · simp only
    omega
  · simp only
    omega
  · intro e' he' hu'
    rcases mem_or_eq_of_mem_set he' with h | rfl
    · exact hv.entry e' h hu'
    · exact absurd hu' (by decide)
  · simp only
    omega
  · intro j hj
    simp only at hj
    rw [used_set hi, if_neg (by omega)]
    exact hv.below j (by omega)
  · simp only [length_set]
    omega

/-- `slot` is the lowest free slot, counted from 1. -/
def LowestFree (cache : List CacheEntry) (slot : ℕ) : Prop :=
  1 ≤ slot ∧ ¬ Used cache (slot - 1) ∧ ∀ j < slot - 1, Used cache j

/-- The search of a cache with a slot left finds the lowest free one. -/
theorem CacheInv.freeSlot (hn : Limits n) (hv : CacheInv P n s.view) (hroom : s.cacheKeys.length < n.maxCacheSlots) :
    ∃ m, freeSlot (s.sizedCache n.maxCacheSlots) (s.sizedCache n.maxCacheSlots).length s.cacheHint = some m ∧
      m < (s.sizedCache n.maxCacheSlots).length ∧ ¬ Used (s.sizedCache n.maxCacheSlots) m ∧
      ∀ j < m, Used (s.sizedCache n.maxCacheSlots) j := by
  obtain ⟨hsized, hlen, _⟩ := hv.sizedCache hn
  refine freeSlot_spec hsized.below ?_
  have hcount := hsized.count
  change (s.sizedCache n.maxCacheSlots).countP _ = s.cacheKeys.length at hcount
  omega

/-- The byte total or the slots leave no room for a rectangle. -/
def Full (s : GfxServer) (n : Negotiated) (rect : Rect16) : Prop :=
  s.cacheBytes + cacheSizeOf rect > n.maxCacheBytes ∨ s.cacheKeys.length ≥ n.maxCacheSlots

/-- The entry of a rectangle. -/
def entryOf (rect : Rect16) (key : ℕ) : CacheEntry :=
  ⟨key, cacheSizeOf rect, rect.width, rect.height, true⟩

/-- What `surface_to_cache` can do: nothing after a failure or when the cache
is full, and otherwise put the rectangle into the slot it found. -/
theorem surfaceToCache_cases {r : GfxServer × Option ℕ} (h : s.surfaceToCache surfaceId rect key = some r) :
    r = (s, none) ∧ (s.state = .failed ∨ ∃ n, s.negotiated = some n ∧ Full s n rect) ∨
    ∃ n m, s.state = .ready ∧ s.negotiated = some n ∧ key ∉ s.cacheKeys.map Prod.fst ∧ ¬ Full s n rect ∧
      freeSlot (s.sizedCache n.maxCacheSlots) (s.sizedCache n.maxCacheSlots).length s.cacheHint = some m ∧
      r.2 = some ((m + 1) % 2 ^ 16) ∧
      r.1.view = { s.view with
        cache := (s.sizedCache n.maxCacheSlots).set m (entryOf rect key)
        cacheHint := (m + 1) % (s.sizedCache n.maxCacheSlots).length
        cacheKeys := (key, (m + 1) % 2 ^ 16) :: s.cacheKeys
        cacheBytes := (s.cacheBytes + cacheSizeOf rect) % 2 ^ 64 } := by
  rcases whenUsable_cases h with ⟨hfailed, rfl⟩ | ⟨hready, h⟩
  · exact Or.inl ⟨rfl, Or.inl hfailed⟩
  simp only [bind, Option.bind_eq_some_iff] at h
  obtain ⟨_, _, _, _, _, _, _, hkey, n, hneg, h⟩ := h
  split_ifs at h with hfull
  · obtain rfl : (s, none) = r := by simpa using h
    exact Or.inl ⟨rfl, Or.inr ⟨n, hneg, hfull⟩⟩
  · simp only [Option.bind_eq_some_iff, pure, Option.some.injEq] at h
    obtain ⟨m, hfind, s1, hsend, rfl⟩ := h
    refine Or.inr ⟨n, m, hready, hneg, ?_, hfull, hfind, rfl, send_view hsend⟩
    unfold assert at hkey
    split_ifs at hkey with hnone
    rw [Option.isNone_iff_eq_none, lookup_eq_none_iff] at hnone
    intro hmem
    obtain ⟨p, hp, hpk⟩ := mem_map.mp hmem
    exact absurd (hnone p hp) (by simp [hpk])

theorem surfaceToCache_spec {r : GfxServer × Option ℕ} (hv : Inv P s.view) (hP : P (entryOf rect key))
    (h : s.surfaceToCache surfaceId rect key = some r) :
    Inv P r.1.view ∧ ∀ slot, r.2 = some slot → LowestFree s.cache slot := by
  rcases surfaceToCache_cases h with ⟨rfl, _⟩ | ⟨n, m, hready, hneg, hkey, hfull, hfind, hslot, hview⟩
  · exact ⟨hv, fun slot hslot => absurd hslot (by simp)⟩
  rw [Full, not_or, not_lt, not_le] at hfull
  have hn : Limits n := hv.limits n hneg
  have hc : CacheInv P n s.view := hv.cache n hneg
  obtain ⟨hsized, hlen, husedIff⟩ := hc.sizedCache hn
  obtain ⟨m', hfind', hm, hfree, hbelow⟩ := hc.freeSlot hn hfull.2
  obtain rfl : m' = m := Option.some.inj (hfind'.symm.trans hfind)
  have hins := hsized.insert (e := entryOf rect key) hn hlen hm hfree hbelow hkey hfull.2 hfull.1 rfl rfl ⟨rfl, hP⟩
  refine ⟨?_, fun slot hs => ?_⟩
  · rw [hview]
    refine ⟨fun h => absurd (h.symm.trans hready) (by decide), hv.ready, fun h => absurd (h.symm.trans hneg) (by simp),
      hv.limits, fun n' hn' => ?_, hv.sorted, hv.contexts⟩
    obtain rfl : n = n' := Option.some.inj (hneg.symm.trans hn')
    exact hins
  · have hslots := hn.slots
    obtain rfl : (m' + 1) % 2 ^ 16 = slot := Option.some.inj (hslot.symm.trans hs)
    rw [Nat.mod_eq_of_lt (by omega)]
    refine ⟨by omega, ?_, fun j hj => ?_⟩
    · rw [← husedIff]
      exact hfree
    · exact (husedIff j).mp (hbelow j (by omega))

/-- The preconditions that `surface_to_cache` asserts; after a failure there
are none. -/
def CacheAsserts (s : GfxServer) (surfaceId : ℕ) (rect : Rect16) (key : ℕ) : Prop :=
  s.state = .failed ∨ s.state = .ready ∧ s.inFrame = true ∧ (s.cacheKeys.lookup key).isNone = true ∧
    ∃ src, s.surface surfaceId = some src ∧ inside rect src.width src.height = true

/-- Where its assertions hold, `surface_to_cache` returns. -/
theorem surfaceToCache_returns (hv : Inv P s.view) (h : CacheAsserts s surfaceId rect key) :
    ∃ r, s.surfaceToCache surfaceId rect key = some r := by
  unfold surfaceToCache whenUsable usable
  rcases h with hfailed | ⟨hready, hframe, hkey, src, hsrc, hinside⟩
  · rw [if_pos hfailed]
    exact ⟨(s, none), rfl⟩
  · obtain ⟨n, hneg⟩ := Option.ne_none_iff_exists'.mp (hv.ready hready)
    change s.negotiated = some n at hneg
    simp only [hready, bind, Option.bind, hsrc, hframe, hinside, hkey, caps, hneg]
    by_cases hfull : s.cacheBytes + cacheSizeOf rect > n.maxCacheBytes ∨ s.cacheKeys.length ≥ n.maxCacheSlots
    · rw [if_pos hfull]
      exact ⟨(s, none), rfl⟩
    · rw [if_neg hfull]
      rw [not_or, not_le] at hfull
      obtain ⟨m, hfind, _⟩ := (hv.cache n hneg).freeSlot (hv.limits n hneg) hfull.2
      rw [hfind]
      exact ⟨_, rfl⟩

theorem evictCacheEntry_inv {slot : ℕ} (hv : Inv P s.view) (h : s.evictCacheEntry slot = some r) : Inv P r.1.view := by
  rcases whenUsable_cases h with ⟨_, rfl⟩ | ⟨hready, h⟩
  · exact hv
  simp only [bind, Option.bind_eq_some_iff, pure, Option.some.injEq] at h
  obtain ⟨e, hentry, s1, hsend, rfl⟩ := h
  unfold cacheEntry at hentry
  simp only [bind, Option.bind_eq_some_iff, pure, Option.some.injEq] at hentry
  obtain ⟨_, _, e', he, _, hused, rfl⟩ := hentry
  have hu : e'.used = true := by
    unfold assert at hused
    split_ifs at hused with hu
    exact hu
  rw [send_view hsend]
  refine ⟨fun h => absurd (h.symm.trans hready) (by decide), hv.ready, fun hnone => ?_, hv.limits, fun n hn => ?_,
    hv.sorted, hv.contexts⟩
  · obtain ⟨hc, _⟩ := hv.fresh hnone
    change s.cache = [] at hc
    rw [hc] at he
    exact absurd he (by simp)
  · exact (hv.cache n hn).evict (hv.limits n hn) he hu

/-! ### Runs -/

/-- The rectangle of a `surface_to_cache` is below `2 ^ 32` bytes. -/
def Command.Small : Command → Prop
  | .surfaceToCache _ rect _ => rect.width * rect.height * bytesPerPixel < 2 ^ 32
  | _ => True

/-- Every command keeps the invariant. -/
theorem step_inv {c : Command} (hv : Inv P s.view) (hP : ∀ surfaceId rect key, c = .surfaceToCache surfaceId rect key →
    P (entryOf rect key)) (h : step s c = some s') : Inv P s'.view := by
  cases hq : c.quiet with
  | true =>
    rw [quiet_view hq h]
    exact hv
  | false =>
    cases c with
    | receive bytes => exact receive_inv hv h
    | resetGraphics width height monitors =>
      obtain ⟨r, hr, rfl⟩ := Option.map_eq_some_iff.mp h
      exact resetGraphics_inv hv hr
    | createSurface width height format =>
      obtain ⟨r, hr, rfl⟩ := Option.map_eq_some_iff.mp h
      exact (createSurface_spec hv hr).1
    | deleteSurface surfaceId =>
      obtain ⟨r, hr, rfl⟩ := Option.map_eq_some_iff.mp h
      exact deleteSurface_inv hv hr
    | wireToSurface2 surfaceId codecId context format data =>
      obtain ⟨r, hr, rfl⟩ := Option.map_eq_some_iff.mp h
      exact wireToSurface2_inv hv hr
    | deleteEncodingContext surfaceId context =>
      obtain ⟨r, hr, rfl⟩ := Option.map_eq_some_iff.mp h
      exact deleteEncodingContext_inv hv hr
    | surfaceToCache surfaceId rect key =>
      obtain ⟨r, hr, rfl⟩ := Option.map_eq_some_iff.mp h
      exact (surfaceToCache_spec hv (hP surfaceId rect key rfl) hr).1
    | evictCacheEntry slot =>
      obtain ⟨r, hr, rfl⟩ := Option.map_eq_some_iff.mp h
      exact evictCacheEntry_inv hv hr
    | _ => simp [Command.quiet] at hq

theorem run_append : ∀ (cs ds : List Command) (s : GfxServer), run s (cs ++ ds) = (run s cs).bind fun s => run s ds
  | [], _, _ => rfl
  | c :: cs, ds, s => by
    rw [cons_append, run, run, Option.bind_assoc]
    congr 1
    funext s1
    exact run_append cs ds s1

theorem run_inv : ∀ (cs : List Command) (s : GfxServer) {s' : GfxServer}, Inv P s.view →
    (∀ surfaceId rect key, Command.surfaceToCache surfaceId rect key ∈ cs → P (entryOf rect key)) →
    run s cs = some s' → Inv P s'.view
  | [], s, s', hv, _, h => by
    obtain rfl : s = s' := by simpa [run] using h
    exact hv
  | c :: cs, s, s', hv, hP, h => by
    rw [run, Option.bind_eq_some_iff] at h
    obtain ⟨s1, h1, h2⟩ := h
    have hv1 : Inv P s1.view := step_inv hv (fun i rect key hc =>
      hP i rect key (by rw [hc]; exact mem_cons_self ..)) h1
    exact run_inv cs s1 hv1 (fun i rect key hc => hP i rect key (mem_cons_of_mem _ hc)) h2

/-- The cache, surfaces and contexts of a server are accounted for. -/
structure Accounting (s : GfxServer) : Prop where
  /-- Keys are cached once, and the map is a bijection onto the used slots. -/
  nodup : (s.cacheKeys.map Prod.fst).Nodup
  bijection : Set.BijOn Prod.snd {p | p ∈ s.cacheKeys} {slot | 1 ≤ slot ∧ Used s.cache (slot - 1)}
  key : ∀ key slot, (key, slot) ∈ s.cacheKeys → ∃ e, s.cache[slot - 1]? = some e ∧ e.key = key
  slots : s.cache.countP CacheEntry.used ≤ (s.negotiated.map Negotiated.maxCacheSlots).getD 0
  bytes : s.cacheBytes = (s.cache.map realBytes).sum
  limit : s.cacheBytes ≤ (s.negotiated.map Negotiated.maxCacheBytes).getD 0
  below : ∀ i < s.cacheHint, Used s.cache i
  /-- `surface_to_cache` returns, and if a slot then the lowest free one. -/
  insert : ∀ surfaceId rect key, CacheAsserts s surfaceId rect key →
    ∃ r, s.surfaceToCache surfaceId rect key = some r ∧ ∀ slot, r.2 = some slot → LowestFree s.cache slot
  contexts : ∀ p ∈ s.codecContexts, p.1 ∈ s.surfaces.map Prod.fst
  /-- `create_surface` returns the lowest id not in use. -/
  create : ∀ width height format r, s.createSurface width height format = some r → s.state = .ready →
    r.2 ∉ s.surfaces.map Prod.fst ∧ ∀ j < r.2, j ∈ s.surfaces.map Prod.fst

/-- The size an entry records is the real one. -/
def SmallEntry (e : CacheEntry) : Prop := e.width * e.height * bytesPerPixel < 2 ^ 32

theorem CacheInv.bijection (hv : CacheInv P n s.view) :
    Set.BijOn Prod.snd {p | p ∈ s.cacheKeys} {slot | 1 ≤ slot ∧ Used s.cache (slot - 1)} := by
  refine ⟨fun p hp => ?_, fun p hp q hq hpq => ?_, fun slot hslot => ?_⟩
  · obtain ⟨i, e, hi, he, hu, _⟩ := (hv.mem p.1 p.2).mp hp
    rw [hi]
    exact ⟨by omega, e, he, hu⟩
  · obtain ⟨i, e, hi, he, _, hek⟩ := (hv.mem p.1 p.2).mp hp
    obtain ⟨j, e', hj, he', _, hek'⟩ := (hv.mem q.1 q.2).mp hq
    obtain rfl : i = j := by omega
    obtain rfl : e = e' := Option.some.inj (he.symm.trans he')
    exact Prod.ext (hek.symm.trans hek') hpq
  · obtain ⟨hpos, e, he, hu⟩ := hslot
    refine ⟨(e.key, slot), (hv.mem e.key slot).mpr ⟨slot - 1, e, by omega, he, hu, rfl⟩, rfl⟩

/-- Everything but the byte total is accounted for whatever is cached. -/
theorem Inv.insert_lowest (hv : Inv P s.view) (hasserts : CacheAsserts s surfaceId rect key) :
    ∃ r, s.surfaceToCache surfaceId rect key = some r ∧ ∀ slot, r.2 = some slot → LowestFree s.cache slot := by
  have hv' : Inv (fun _ => True) s.view := ⟨hv.waiting, hv.ready, hv.fresh, hv.limits, fun n hn => by
      have hc := hv.cache n hn
      exact ⟨hc.sized, hc.nodup, hc.mem, hc.count, hc.slots, hc.sum, fun e he hu => ⟨(hc.entry e he hu).1, trivial⟩,
        hc.bytes, hc.below, hc.hint⟩, hv.sorted, hv.contexts⟩
  obtain ⟨r, hr⟩ := surfaceToCache_returns hv' hasserts
  exact ⟨r, hr, (surfaceToCache_spec hv' trivial hr).2⟩

theorem Inv.accounting (hv : Inv SmallEntry s.view) : Accounting s := by
  have hcreate : ∀ width height format r, s.createSurface width height format = some r → s.state = .ready →
      r.2 ∉ s.surfaces.map Prod.fst ∧ ∀ j < r.2, j ∈ s.surfaces.map Prod.fst :=
    fun width height format r hr => (createSurface_spec hv hr).2
  -- a server that has not negotiated has an empty cache, of any size
  obtain ⟨n, hc, hslots, hbytes⟩ : ∃ n, CacheInv SmallEntry n s.view ∧
      s.cacheKeys.length ≤ (s.negotiated.map Negotiated.maxCacheSlots).getD 0 ∧
      s.cacheBytes ≤ (s.negotiated.map Negotiated.maxCacheBytes).getD 0 := by
    cases hneg : s.negotiated with
    | none =>
      obtain ⟨hc, hk, hb, hh⟩ := hv.fresh hneg
      refine ⟨derive 0 0 {}, CacheInv.empty hc hk hb hh, ?_, ?_⟩
      · change s.cacheKeys = [] at hk
        rw [hk]
        exact Nat.zero_le _
      · change s.cacheBytes = 0 at hb
        rw [hb]
        exact Nat.zero_le _
    | some n => exact ⟨n, hv.cache n hneg, (hv.cache n hneg).slots, (hv.cache n hneg).bytes⟩
  refine ⟨hc.nodup, hc.bijection, fun key slot hmem => ?_, ?_, ?_, hbytes, hc.below,
    fun surfaceId rect key hasserts => hv.insert_lowest hasserts, hv.contexts, hcreate⟩
  · obtain ⟨i, e, rfl, he, _, hk⟩ := (hc.mem key slot).mp hmem
    exact ⟨e, he, hk⟩
  · have hcount := hc.count
    change s.cache.countP CacheEntry.used = s.cacheKeys.length at hcount
    rw [hcount]
    exact hslots
  · have hsum := hc.sum
    change s.cacheBytes = (s.cache.map recordedBytes).sum at hsum
    rw [hsum]
    congr 1
    refine map_congr_left fun e he => ?_
    unfold recordedBytes realBytes
    split_ifs with hu
    · obtain ⟨h1, h2⟩ := hc.entry e he hu
      rw [h1]
      exact Nat.mod_eq_of_lt h2
    · rfl

/-- **In every run that caches no rectangle of `2 ^ 32` bytes or more the
cache is accounted for**, whatever else the server is told to do and whatever
the client sends. -/
theorem run_accounting (config : GfxServerConfig) (cs : List Command) (s : GfxServer) (hsmall : ∀ c ∈ cs, c.Small)
    (hrun : run { config := config } cs = some s) : Accounting s :=
  (run_inv cs _ (inv_new config) (fun _ _ _ hc => hsmall _ hc) hrun).accounting

/-- **Whatever is cached**, the invariant holds in every run, and the cache
takes the lowest free slot. -/
theorem run_consistent (config : GfxServerConfig) (cs : List Command) (s : GfxServer)
    (hrun : run { config := config } cs = some s) : Inv (fun _ => True) s.view ∧
      ∀ surfaceId rect key, CacheAsserts s surfaceId rect key →
        ∃ r, s.surfaceToCache surfaceId rect key = some r ∧ ∀ slot, r.2 = some slot → LowestFree s.cache slot := by
  have hinv : Inv (fun _ => True) s.view := run_inv cs _ (inv_new config) (fun _ _ _ _ => trivial) hrun
  exact ⟨hinv, fun surfaceId rect key => hinv.insert_lowest⟩

/-- A client that offers 10.7 with a small cache, and an output of one
surface of 32768 times 32768 pixels. -/
def largeSurface : List Command :=
  [.receive [0x12, 0, 0, 0, 22, 0, 0, 0, 1, 0, 0x01, 0x07, 0x0A, 0, 4, 0, 0, 0, 2, 0, 0, 0], .resetGraphics 1024 768 [],
    .createSurface 32768 32768 PixelFormat.xrgb8888, .startFrame 0]

set_option maxRecDepth 4000 in
theorem run_largeSurface : ∃ s n, run { config := {} } largeSurface = some s ∧ s.state = .ready ∧ s.inFrame = true ∧
    s.surfaces = [(0, ⟨32768, 32768, PixelFormat.xrgb8888⟩)] ∧ s.cacheKeys = [] ∧ s.cacheBytes = 0 ∧
    s.negotiated = some n ∧ n.maxCacheSlots = maxCacheSlotsSmall ∧ n.maxCacheBytes = cacheSizeSmall :=
  ⟨_, _, rfl, rfl, rfl, rfl, rfl, rfl, rfl, rfl, rfl⟩

/-- Rectangles are cached and evicted, and the client starts over; of the three
cached then, the first two are evicted and a fourth takes the lowest free slot. -/
def recached : List Command :=
  largeSurface ++ [.surfaceToCache 0 ⟨0, 0, 64, 64⟩ 1, .surfaceToCache 0 ⟨0, 0, 32, 16⟩ 2, .evictCacheEntry 1,
    .surfaceToCache 0 ⟨64, 0, 128, 64⟩ 3, .endFrame] ++
  largeSurface ++ [.surfaceToCache 0 ⟨0, 0, 32, 32⟩ 5, .surfaceToCache 0 ⟨0, 0, 16, 16⟩ 1, .surfaceToCache 0 ⟨0, 0, 8, 8⟩ 3,
    .evictCacheEntry 1, .evictCacheEntry 2, .surfaceToCache 0 ⟨64, 0, 128, 64⟩ 4]

/-- The entry under key 6 counts 0 bytes. -/
def wrapped : List Command :=
  recached ++ [.surfaceToCache 0 ⟨0, 0, 32768, 32768⟩ 6, .surfaceToCache 0 ⟨0, 0, 4, 4⟩ 7, .evictCacheEntry 3]

theorem run_accounting_recached : (∀ c ∈ recached, c.Small) ∧ ∃ s, run { config := {} } recached = some s ∧
    s.cacheKeys = [(4, 1), (3, 3)] ∧ s.cacheBytes = 16640 ∧ Accounting s := by
  have hsmall : ∀ c ∈ recached, c.Small := by
    simp only [recached, largeSurface, forall_mem_append, forall_mem_cons, not_mem_nil, IsEmpty.forall_iff,
      implies_true, Command.Small]
    decide
  have hkept : (run { config := {} } recached).map (fun s => (s.cacheKeys, s.cacheBytes)) =
      some ([(4, 1), (3, 3)], 16640) := by decide +kernel
  obtain ⟨s, hrun, hs⟩ := Option.map_eq_some_iff.mp hkept
  obtain ⟨hkeys, hbytes⟩ := Prod.mk.inj hs
  exact ⟨hsmall, s, hrun, hkeys, hbytes, run_accounting {} recached s hsmall hrun⟩

theorem run_consistent_wrapped : ∃ s r, run { config := {} } wrapped = some s ∧
    s.cacheKeys = [(7, 4), (6, 2), (4, 1)] ∧ s.cacheBytes = 16448 ∧ Inv (fun _ => True) s.view ∧
    s.surfaceToCache 0 ⟨0, 0, 8, 8⟩ 8 = some r ∧ r.2 = some 3 ∧ LowestFree s.cache 3 := by
  have hkept : (run { config := {} } wrapped).map (fun s => (s.cacheKeys, s.cacheBytes)) =
      some ([(7, 4), (6, 2), (4, 1)], 16448) := by decide +kernel
  obtain ⟨s, hrun, hs⟩ := Option.map_eq_some_iff.mp hkept
  obtain ⟨hkeys, hbytes⟩ := Prod.mk.inj hs
  have hasserts : (run { config := {} } wrapped).map (fun s => (s.state, s.inFrame, s.surface 0)) =
      some (.ready, true, some ⟨32768, 32768, PixelFormat.xrgb8888⟩) := by decide +kernel
  have hnext : ((run { config := {} } wrapped).bind fun s => s.surfaceToCache 0 ⟨0, 0, 8, 8⟩ 8).map Prod.snd =
      some (some 3) := by decide +kernel
  rw [hrun] at hasserts hnext
  simp only [Option.map_some, Option.some.injEq, Prod.mk.injEq] at hasserts
  obtain ⟨hready, hframe, hsurface⟩ := hasserts
  obtain ⟨hinv, hlowest⟩ := run_consistent {} wrapped s hrun
  obtain ⟨r, hr, hslot⟩ := hlowest 0 ⟨0, 0, 8, 8⟩ 8
    (.inr ⟨hready, hframe, by rw [hkeys]; rfl, _, hsurface, by decide⟩)
  have htaken : r.2 = some 3 := by
    rw [Option.bind_some, hr] at hnext
    exact Option.some.inj hnext
  exact ⟨s, r, hrun, hkeys, hbytes, hinv, hr, htaken, hslot 3 htaken⟩

/-- **Caching the whole surface adds nothing to the byte total**: its
`2 ^ 32` bytes are 0 in 32-bit arithmetic. -/
theorem accounting_wraps : ¬ ∀ (config : GfxServerConfig) (cs : List Command) (s : GfxServer),
    run { config := config } cs = some s → Accounting s := by
  intro hall
  obtain ⟨s, n, hrun, hready, hframe, hsurfaces, hkeys, hbytes, hneg, hslots, hmax⟩ := run_largeSurface
  have hv : Inv (fun _ => True) s.view := run_inv largeSurface _ (inv_new {}) (fun _ _ _ _ => trivial) hrun
  let rect : Rect16 := ⟨0, 0, 32768, 32768⟩
  have hasserts : CacheAsserts s 0 rect 1 :=
    Or.inr ⟨hready, hframe, by rw [hkeys]; rfl, ⟨32768, 32768, PixelFormat.xrgb8888⟩,
      by rw [surface, hsurfaces]; rfl, by decide⟩
  obtain ⟨r, hr⟩ := surfaceToCache_returns hv hasserts
  have hrun' : run { config := {} } (largeSurface ++ [.surfaceToCache 0 rect 1]) = some r.1 := by
    rw [run_append, hrun]
    simp [run, step, hr]
  have hbytes' := (hall _ _ _ hrun').bytes
  rcases surfaceToCache_cases hr with ⟨_, hfailed | ⟨n', hneg', hfull⟩⟩ | ⟨n', m, _, hneg', _, hfull, hfind, _, hview⟩
  · exact absurd (hready.symm.trans hfailed) (by decide)
  · obtain rfl : n = n' := Option.some.inj (hneg.symm.trans hneg')
    rw [Full, hbytes, hkeys, hmax, hslots] at hfull
    exact absurd hfull (by decide)
  · have hbytes0 : r.1.cacheBytes = 0 := by
      change r.1.view.cacheBytes = 0
      rw [hview]
      simp only [hbytes]
      decide
    have hcache : r.1.cache = (s.sizedCache n'.maxCacheSlots).set m (entryOf rect 1) := congrArg View.cache hview
    obtain rfl : n = n' := Option.some.inj (hneg.symm.trans hneg')
    have hc : CacheInv (fun _ => True) n s.view := hv.cache n hneg
    rw [Full, not_or, ge_iff_le, Nat.not_le] at hfull
    obtain ⟨m', hfind', hm, _⟩ := hc.freeSlot (hv.limits n hneg) hfull.2
    obtain rfl : m' = m := Option.some.inj (hfind'.symm.trans hfind)
    have hmem : realBytes (entryOf rect 1) ∈ r.1.cache.map realBytes := by
      rw [hcache]
      exact mem_map_of_mem (mem_set hm _)
    have hle : realBytes (entryOf rect 1) ≤ r.1.cacheBytes := by
      rw [hbytes']
      exact single_le_sum (fun x _ => Nat.zero_le x) _ hmem
    rw [hbytes0] at hle
    exact absurd hle (by decide)

end Rdpgfx
end Channels
end Farland
