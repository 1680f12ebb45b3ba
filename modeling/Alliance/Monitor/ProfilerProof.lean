import Alliance.Monitor.Profiler
import Mathlib.Data.List.Count
import Mathlib.Data.List.Nodup

/-!
# What the profiler has recorded

Behind every run that has not filled the table, the chains hold each arc that was called once, with
the number of its calls (`Tallied`), and what is written out is exactly what there is to be known of
the program (`profile_run`). The place behind the last one has no entry in the table, but a call
from there is looked up in it (`mcount_outside_iff`).
-/

namespace Alliance.Monitor

open Function Lib

namespace GmonParam

variable (p : GmonParam)

/-- The index of the next arc. -/
def next : Nat → Nat := (fun t : ToStruct => t.link.toNat) ∘ p.tos

/-- The index of the first arc. -/
def head : Nat → Nat := BitVec.toNat ∘ p.froms

/-- The number of places that are told apart. -/
def places : Nat := (p.fromssize / sizeofUHALF).toNat

/-- The address of a place. -/
def site (b : Nat) : UADDR := p.lowpc + .ofNat 32 b * p.hashfraction * sizeofUHALF

/-- What is fixed when the profiler is started. -/
structure Shape : Prop where
  lowpc : p.lowpc.toNat % 4 = 0
  textsize : p.textsize.toNat % 4 = 0
  highpc : p.highpc - p.lowpc = p.textsize
  kcountsize : p.kcountsize = p.textsize / 2#32
  fromssize : p.fromssize = p.textsize / 2#32
  hashfraction : p.hashfraction = 2#32
  tolimit : p.tolimit ≤ MAXARCS

/-- Nothing of it has changed. -/
structure SameShape (p q : GmonParam) : Prop where
  lowpc : q.lowpc = p.lowpc
  highpc : q.highpc = p.highpc
  textsize : q.textsize = p.textsize
  kcountsize : q.kcountsize = p.kcountsize
  fromssize : q.fromssize = p.fromssize
  hashfraction : q.hashfraction = p.hashfraction
  tolimit : q.tolimit = p.tolimit

end GmonParam

open GmonParam

variable {p q : GmonParam} {b c i : Nat} {frompc selfpc : UADDR} {arcs : List (UADDR × UADDR)}
  {chain : Nat → List Nat}

theorem GmonParam.SameShape.shape (h : p.SameShape q) (hp : p.Shape) : q.Shape := by
  obtain ⟨h1, h2, h3, h4, h5, h6, h7⟩ := h
  obtain ⟨k1, k2, k3, k4, k5, k6, k7⟩ := hp
  constructor
  · rwa [h1]
  · rwa [h3]
  · rw [h1, h2, h3, k3]
  · rw [h4, h3, k4]
  · rw [h5, h3, k5]
  · rw [h6, k6]
  · rwa [h7]

theorem GmonParam.SameShape.site (h : p.SameShape q) (b : Nat) : q.site b = p.site b := by
  rw [GmonParam.site, GmonParam.site, h.lowpc, h.hashfraction]

theorem GmonParam.SameShape.places (h : p.SameShape q) : q.places = p.places := by
  rw [GmonParam.places, GmonParam.places, h.fromssize]

/-! ## Places -/

namespace GmonParam.Shape

theorem places_eq (h : p.Shape) : p.places = p.textsize.toNat / 4 := by
  rw [places, h.fromssize, sizeofUHALF, BitVec.toNat_udiv, BitVec.toNat_udiv]
  show p.textsize.toNat / 2 / 2 = _
  omega

theorem site_toNat (h : p.Shape) (hb : b < p.places) :
    (p.site b).toNat = (p.lowpc.toNat + 4 * b) % 2 ^ 32 := by
  have hlt := p.textsize.isLt
  rw [h.places_eq] at hb
  rw [site, h.hashfraction, sizeofUHALF, BitVec.toNat_add, BitVec.toNat_mul, BitVec.toNat_mul,
    BitVec.toNat_ofNat]
  show (_ + b % 2 ^ 32 * 2 % 2 ^ 32 * 2 % 2 ^ 32) % 2 ^ 32 = _
  omega

theorem site_inj (h : p.Shape) (hb : b < p.places) (hc : c < p.places)
    (he : p.site b = p.site c) : b = c := by
  have := congrArg BitVec.toNat he
  rw [h.site_toNat hb, h.site_toNat hc] at this
  rw [h.places_eq] at hb hc
  have hlt := p.textsize.isLt
  have hlow := p.lowpc.isLt
  omega

/-- Where the calls from an address of the program are kept. -/
theorem site_call (h : p.Shape) (hin : frompc - p.lowpc < p.textsize) :
    ((frompc - p.lowpc) / (p.hashfraction * sizeofUHALF)).toNat < p.places ∧
      p.site ((frompc - p.lowpc) / (p.hashfraction * sizeofUHALF)).toNat =
        rounddown frompc 4#32 := by
  have hdiv : ((frompc - p.lowpc) / (p.hashfraction * sizeofUHALF)).toNat =
      (frompc - p.lowpc).toNat / 4 := by
    rw [h.hashfraction, BitVec.toNat_udiv]
    rfl
  have htext := h.textsize
  have hlow := h.lowpc
  have hlt := BitVec.lt_def.mp hin
  have hplace : (frompc - p.lowpc).toNat / 4 < p.places := by
    rw [h.places_eq]
    omega
  rw [hdiv]
  refine ⟨hplace, BitVec.eq_of_toNat_eq ?_⟩
  rw [h.site_toNat hplace, rounddown, BitVec.toNat_mul, BitVec.toNat_udiv, BitVec.toNat_sub]
  show _ = frompc.toNat / 4 * 4 % 2 ^ 32
  have hf := frompc.isLt
  have hl := p.lowpc.isLt
  omega

end GmonParam.Shape

/-! ## The call graph -/

/-- The arcs that were called, and how often. -/
structure Tallied (p : GmonParam) (arcs : List (UADDR × UADDR)) (chain : Nat → List Nat) :
    Prop where
  chains : Chains 0 p.next p.head chain
  used : ∀ {b i}, i ∈ chain b → i ≤ p.next 0
  room : p.next 0 < p.tolimit
  inside : ∀ {b i}, i ∈ chain b → b < p.places
  count : ∀ {b i}, i ∈ chain b →
    (p.tos i).count = .ofNat 32 (arcs.count (p.site b, (p.tos i).selfpc))
  called : ∀ {b i}, i ∈ chain b → (p.site b, (p.tos i).selfpc) ∈ arcs
  once : ∀ b, ((chain b).map fun i => (p.tos i).selfpc).Nodup
  complete : ∀ {a}, a ∈ arcs → ∃ b, ∃ i ∈ chain b, (p.site b, (p.tos i).selfpc) = a

namespace Tallied

/-- The state and the histogram are not looked at. -/
theorem congr (h : Tallied p arcs chain) (hq : p.SameShape q) (htos : q.tos = p.tos)
    (hfroms : q.froms = p.froms) : Tallied q arcs chain := by
  have hnext : q.next = p.next := congrArg (_ ∘ ·) htos
  have hhead : q.head = p.head := congrArg (_ ∘ ·) hfroms
  constructor
  · rw [hnext, hhead]
    exact h.chains
  · rw [hnext]
    exact h.used
  · rw [hnext, hq.tolimit]
    exact h.room
  · rw [hq.places]
    exact h.inside
  · simp only [htos, hq.site]
    exact h.count
  · simp only [htos, hq.site]
    exact h.called
  · simp only [htos]
    exact h.once
  · simp only [htos, hq.site]
    exact h.complete

theorem ne_zero (h : Tallied p arcs chain) (hi : i ∈ chain b) : i ≠ 0 :=
  ne_of_mem_of_not_mem hi (h.chains.chained b).nil_notMem

theorem lt_tolimit (h : Tallied p arcs chain) (hi : i ∈ chain b) : i < p.tolimit :=
  Nat.lt_of_le_of_lt (h.used hi) h.room

/-- An arc is in one chain, at one place in it. -/
theorem eq_of_key (h : Tallied p arcs chain) (hp : p.Shape) {j : Nat} (hi : i ∈ chain b)
    (hj : j ∈ chain c)
    (he : (p.site b, (p.tos i).selfpc) = (p.site c, (p.tos j).selfpc)) : i = j := by
  obtain ⟨hsite, hself⟩ := Prod.mk.inj he
  obtain rfl := hp.site_inj (h.inside hi) (h.inside hj) hsite
  exact List.inj_on_of_nodup_map (h.once b) hi hj hself

/-- **Counting** a call of an arc that there is. -/
theorem bump (h : Tallied p arcs chain) (hp : p.Shape) (hi : i ∈ chain b) :
    Tallied (countArc p i) (arcs ++ [(p.site b, (p.tos i).selfpc)]) chain := by
  let tos' := update p.tos i { p.tos i with count := (p.tos i).count + 1#32 }
  have hnext : (fun t : ToStruct => t.link.toNat) ∘ tos' = p.next := by
    rw [comp_update]
    exact update_eq_self _ _
  have hself : ∀ j, (tos' j).selfpc = (p.tos j).selfpc := by
    intro j
    rcases eq_or_ne j i with rfl | hj
    · rw [show tos' j = _ from update_self _ _ _]
    · rw [show tos' j = _ from update_of_ne hj _ _]
  constructor
  · show Chains 0 ((fun t : ToStruct => t.link.toNat) ∘ tos') _ _
    rw [hnext]
    exact h.chains
  · intro c j hj
    show j ≤ ((fun t : ToStruct => t.link.toNat) ∘ tos') 0
    rw [hnext]
    exact h.used hj
  · show ((fun t : ToStruct => t.link.toNat) ∘ tos') 0 < _
    rw [hnext]
    exact h.room
  · exact h.inside
  · intro c j hj
    show (tos' j).count = .ofNat 32 (List.count (p.site c, (tos' j).selfpc) _)
    rw [hself, List.count_append]
    rcases eq_or_ne j i with rfl | hne
    · obtain rfl := h.chains.disjoint hj hi
      rw [show tos' j = _ from update_self _ _ _, List.count_singleton_self, BitVec.ofNat_add,
        ← h.count hj]
    · have hother : (p.site c, (p.tos j).selfpc) ∉ [(p.site b, (p.tos i).selfpc)] :=
        fun hm => hne (h.eq_of_key hp hj hi (List.mem_singleton.mp hm))
      rw [show tos' j = _ from update_of_ne hne _ _, h.count hj, List.count_eq_zero_of_not_mem hother]
      rfl
  · intro c j hj
    show (p.site c, (tos' j).selfpc) ∈ _
    rw [hself]
    exact List.mem_append_left _ (h.called hj)
  · intro c
    show ((chain c).map fun j => (tos' j).selfpc).Nodup
    simp only [hself]
    exact h.once c
  · intro a ha
    show ∃ c, ∃ j ∈ chain c, (p.site c, (tos' j).selfpc) = a
    simp only [hself]
    rcases List.mem_append.mp ha with ha | ha
    · exact h.complete ha
    · exact ⟨b, i, hi, (List.mem_singleton.mp ha).symm⟩

/-- **Moving** an arc to the front. -/
theorem toFront (h : Tallied p arcs chain) {as bs : List Nat} {a x : Nat}
    (hb : chain b = as ++ a :: x :: bs) :
    Tallied (moveArc p b a x) arcs (update chain b (x :: (as ++ a :: bs))) := by
  have hxa : x ≠ a := by
    have hnodup := (h.chains.chained b).nodup
    rw [hb] at hnodup
    have hhead := (List.nodup_cons.mp (List.nodup_append.mp hnodup).2.1).1
    exact fun he => hhead (he ▸ .head _)
  let tos' := update (update p.tos a { p.tos a with link := (p.tos x).link }) x
    { p.tos x with link := p.froms b }
  have hmove : moveArc p b a x =
      { p with tos := tos', froms := update p.froms b (p.tos a).link } := by
    rw [moveArc]
    dsimp only
    rw [update_of_ne hxa]
  rw [hmove]
  have hx : (p.tos a).link.toNat = x := by
    have hchain := h.chains.chained b
    rw [hb] at hchain
    exact hchain.after.1
  have hnext : (fun t : ToStruct => t.link.toNat) ∘ tos' =
      update (update p.next a (p.next x)) x (p.head b) := by
    rw [comp_update, comp_update]
    rfl
  have hhead : BitVec.toNat ∘ update p.froms b (p.tos a).link = update p.head b x := by
    rw [comp_update, hx]
    rfl
  have hmem : ∀ {c i}, i ∈ update chain b (x :: (as ++ a :: bs)) c ↔ i ∈ chain c := by
    intro c i
    rcases eq_or_ne c b with rfl | hc
    · rw [update_self, hb]
      simp only [List.mem_cons, List.mem_append]
      tauto
    · rw [update_of_ne hc]
  have hsame : ∀ j, (tos' j).selfpc = (p.tos j).selfpc ∧ (tos' j).count = (p.tos j).count := by
    intro j
    rcases eq_or_ne j x with rfl | hjx
    · rw [show tos' j = _ from update_self _ _ _]
      exact ⟨rfl, rfl⟩
    · rcases eq_or_ne j a with rfl | hja
      · rw [show tos' j = _ from (update_of_ne hjx _ _).trans (update_self _ _ _)]
        exact ⟨rfl, rfl⟩
      · rw [show tos' j = _ from (update_of_ne hjx _ _).trans (update_of_ne hja _ _)]
        exact ⟨rfl, rfl⟩
  have hmidb : ∀ i, i ∈ [x, a] → i ∈ chain b := by
    intro i hi
    rw [hb]
    simp only [List.mem_cons, List.mem_append, List.not_mem_nil, or_false] at hi ⊢
    tauto
  have hzero : (fun t : ToStruct => t.link.toNat) (tos' 0) = p.next 0 := by
    have h0x : 0 ≠ x := (h.ne_zero (hmidb x (.head _))).symm
    have h0a : 0 ≠ a := (h.ne_zero (hmidb a (.tail _ (.head _)))).symm
    rw [show tos' 0 = _ from (update_of_ne h0x _ _).trans (update_of_ne h0a _ _)]
    rfl
  constructor
  · show Chains 0 ((fun t : ToStruct => t.link.toNat) ∘ tos')
      (BitVec.toNat ∘ update p.froms b (p.tos a).link) _
    rw [hnext, hhead]
    exact h.chains.toFront hb
  · intro c i hi
    exact (h.used (hmem.mp hi)).trans (Nat.le_of_eq hzero.symm)
  · exact Nat.lt_of_le_of_lt (Nat.le_of_eq hzero) h.room
  · intro c i hi
    exact h.inside (hmem.mp hi)
  · intro c i hi
    show (tos' i).count = .ofNat 32 (arcs.count (p.site c, (tos' i).selfpc))
    rw [(hsame i).1, (hsame i).2]
    exact h.count (hmem.mp hi)
  · intro c i hi
    show (p.site c, (tos' i).selfpc) ∈ arcs
    rw [(hsame i).1]
    exact h.called (hmem.mp hi)
  · intro c
    show ((update chain b (x :: (as ++ a :: bs)) c).map fun i => (tos' i).selfpc).Nodup
    simp only [fun i => (hsame i).1]
    rcases eq_or_ne c b with rfl | hc
    · have honce := h.once c
      rw [hb] at honce
      rw [update_self]
      refine (List.Perm.nodup_iff (List.Perm.map _ ?_)).mp honce
      exact ((List.Perm.swap x a bs).append_left as).trans List.perm_middle
    · rw [update_of_ne hc]
      exact h.once c
  · intro arc harc
    obtain ⟨c, i, hi, he⟩ := h.complete harc
    refine ⟨c, i, hmem.mpr hi, ?_⟩
    show (p.site c, (tos' i).selfpc) = arc
    rw [(hsame i).1]
    exact he

/-- **A new arc**, if there is room for it. -/
theorem newArc (h : Tallied p arcs chain) (hp : p.Shape) (hb : b < p.places)
    (hnew : ∀ i ∈ chain b, (p.tos i).selfpc ≠ selfpc) :
    (newArc p b selfpc (p.froms b)).state = .profError ∨
      (Monitor.newArc p b selfpc (p.froms b)).state = p.state ∧
        ∃ chain', Tallied (Monitor.newArc p b selfpc (p.froms b))
          (arcs ++ [(p.site b, selfpc)]) chain' := by
  have hlink : ((p.tos 0).link + 1#16).toNat = p.next 0 + 1 := by
    have hroom := h.room
    have hlimit := hp.tolimit
    have hmax : MAXARCS = 65534 := rfl
    have hlt : (p.tos 0).link.toNat < p.tolimit := hroom
    rw [BitVec.toNat_add]
    show ((p.tos 0).link.toNat + 1) % 2 ^ 16 = (p.tos 0).link.toNat + 1
    omega
  by_cases hfull : p.tolimit ≤ p.next 0 + 1
  · left
    rw [Monitor.newArc]
    dsimp only
    rw [hlink, if_pos hfull]
  · let n := p.next 0 + 1
    let tos' := update (update p.tos 0 { p.tos 0 with link := (p.tos 0).link + 1#16 }) n
      ⟨selfpc, 1#32, p.froms b⟩
    let q : GmonParam :=
      { p with tos := tos', froms := update p.froms b ((p.tos 0).link + 1#16) }
    have hq : Monitor.newArc p b selfpc (p.froms b) = q := by
      rw [Monitor.newArc]
      dsimp only
      rw [hlink, if_neg hfull]
    right
    rw [hq]
    refine ⟨rfl, update chain b (n :: chain b), ?_⟩
    have hnmem : ∀ c, n ∉ chain c := fun c hm => Nat.not_succ_le_self _ (h.used hm)
    have hn0 : n ≠ 0 := Nat.succ_ne_zero _
    have hnew' : tos' n = ⟨selfpc, 1#32, p.froms b⟩ := update_self _ _ _
    have hold : ∀ {c i}, i ∈ chain c → tos' i = p.tos i := by
      intro c i hi
      exact (update_of_ne (ne_of_mem_of_not_mem hi (hnmem c)) _ _).trans
        (update_of_ne (h.ne_zero hi) _ _)
    have hnext : q.next = update (update p.next 0 n) n (p.head b) := by
      show (fun t : ToStruct => t.link.toNat) ∘ tos' = _
      rw [comp_update, comp_update]
      dsimp only
      rw [hlink]
      rfl
    have hhead : q.head = update p.head b n := by
      show BitVec.toNat ∘ update p.froms b _ = _
      rw [comp_update, hlink]
      rfl
    have hzero : q.next 0 = n := by
      rw [hnext, update_of_ne hn0.symm, update_self]
    have hmem : ∀ {c i}, i ∈ update chain b (n :: chain b) c ↔ c = b ∧ i = n ∨ i ∈ chain c := by
      intro c i
      rcases eq_or_ne c b with rfl | hc
      · rw [update_self, List.mem_cons]
        tauto
      · rw [update_of_ne hc]
        tauto
    have hfresh : (p.site b, selfpc) ∉ arcs := by
      intro hm
      obtain ⟨c, i, hi, he⟩ := h.complete hm
      obtain ⟨hsite, hself⟩ := Prod.mk.inj he
      obtain rfl := hp.site_inj (h.inside hi) hb hsite
      exact hnew i hi hself
    constructor
    · rw [hnext, hhead]
      have hkeep : Chains 0 (update p.next 0 n) p.head chain :=
        h.chains.congr fun c y hy => update_of_ne (h.ne_zero hy) _ _
      exact hkeep.push hn0 hnmem b
    · intro c i hi
      rw [hzero]
      rcases hmem.mp hi with ⟨-, rfl⟩ | hi
      · exact Nat.le_refl _
      · exact (h.used hi).trans (Nat.le_succ _)
    · rw [hzero]
      exact Nat.lt_of_not_le hfull
    · intro c i hi
      rcases hmem.mp hi with ⟨rfl, -⟩ | hi
      · exact hb
      · exact h.inside hi
    · intro c i hi
      show (tos' i).count = .ofNat 32 (List.count (p.site c, (tos' i).selfpc) _)
      rw [List.count_append]
      rcases hmem.mp hi with ⟨rfl, rfl⟩ | hi
      · rw [hnew', List.count_eq_zero_of_not_mem hfresh, List.count_singleton_self]
      · have hother : (p.site c, (p.tos i).selfpc) ∉ [(p.site b, selfpc)] :=
          fun hm => hfresh (List.mem_singleton.mp hm ▸ h.called hi)
        rw [hold hi, h.count hi, List.count_eq_zero_of_not_mem hother]
        rfl
    · intro c i hi
      show (p.site c, (tos' i).selfpc) ∈ _
      rcases hmem.mp hi with ⟨rfl, rfl⟩ | hi
      · rw [hnew']
        exact List.mem_append_right _ (.head _)
      · rw [hold hi]
        exact List.mem_append_left _ (h.called hi)
    · intro c
      have hmap : ∀ c, (chain c).map (fun i => (tos' i).selfpc) =
          (chain c).map fun i => (p.tos i).selfpc :=
        fun c => List.map_congr_left fun i hi => congrArg ToStruct.selfpc (hold hi)
      show ((update chain b (n :: chain b) c).map fun i => (tos' i).selfpc).Nodup
      rcases eq_or_ne c b with rfl | hc
      · rw [update_self, List.map_cons, hmap, hnew', List.nodup_cons]
        refine ⟨fun hm => ?_, h.once c⟩
        obtain ⟨i, hi, he⟩ := List.mem_map.mp hm
        exact hnew i hi he
      · rw [update_of_ne hc, hmap]
        exact h.once c
    · intro a ha
      show ∃ c, ∃ i ∈ update chain b (n :: chain b) c, (p.site c, (tos' i).selfpc) = a
      rcases List.mem_append.mp ha with ha | ha
      · obtain ⟨c, i, hi, he⟩ := h.complete ha
        exact ⟨c, i, hmem.mpr (.inr hi), by rw [hold hi, he]⟩
      · exact ⟨b, n, hmem.mpr (.inl ⟨rfl, rfl⟩), by rw [hnew', List.mem_singleton.mp ha]⟩

theorem length_lt (h : Tallied p arcs chain) (b : Nat) : (chain b).length < p.tolimit := by
  have hsub : chain b ⊆ List.range' 1 (p.next 0) := by
    intro i hi
    have := h.used hi
    have := h.ne_zero hi
    rw [List.mem_range'_1]
    omega
  have hle := (List.subperm_of_subset (h.chains.chained b).nodup hsub).length_le
  rw [List.length_range'] at hle
  exact Nat.lt_of_le_of_lt hle h.room

/-- **The search** goes on to the end of the chain, or finds the arc. -/
theorem searchArc_cases (h : Tallied p arcs chain) (selfpc : UADDR) {n top : Nat}
    {as rest : List Nat} (hb : chain b = as ++ top :: rest) (hn : rest.length < n) :
    (searchArc p selfpc n top = some none ∧ ∀ i ∈ rest, (p.tos i).selfpc ≠ selfpc) ∨
      ∃ as a x bs, chain b = as ++ a :: x :: bs ∧ (p.tos x).selfpc = selfpc ∧
        searchArc p selfpc n top = some (some (a, x)) := by
  obtain ⟨n, rfl⟩ := Nat.exists_eq_succ_of_ne_zero (Nat.ne_of_gt (Nat.zero_lt_of_lt hn))
  have hbehind := h.chains.chained b
  rw [hb] at hbehind
  have hnext := hbehind.after
  rw [searchArc]
  induction rest generalizing n top as with
  | nil =>
      have hzero : (p.tos top).link = 0#16 := BitVec.eq_of_toNat_eq hnext
      rw [if_pos hzero]
      exact .inl ⟨rfl, fun i hi => absurd hi List.not_mem_nil⟩
  | cons x rest ih =>
      have hx : (p.tos top).link.toNat = x := hnext.1
      have hmem : x ∈ chain b := hb ▸ List.mem_append_right _ (.tail _ (.head _))
      have hne : (p.tos top).link ≠ 0#16 := fun he => h.ne_zero hmem (hx ▸ he ▸ rfl)
      rw [if_neg hne, hx]
      dsimp only
      rw [if_neg (Nat.not_le.mpr (h.lt_tolimit hmem))]
      by_cases hself : (p.tos x).selfpc = selfpc
      · rw [if_pos hself]
        exact .inr ⟨as, top, x, rest, hb, hself, rfl⟩
      · rw [if_neg hself]
        rw [List.length_cons] at hn
        obtain ⟨n, rfl⟩ := Nat.exists_eq_succ_of_ne_zero (show n ≠ 0 by omega)
        have hb' : chain b = (as ++ [top]) ++ x :: rest := by rw [hb, List.append_assoc]; rfl
        have hchain := h.chains.chained b
        rw [hb'] at hchain
        rw [searchArc]
        obtain ⟨hnone, hrest⟩ | hfound := ih hb' n (by omega) hchain hchain.after
        · exact .inl ⟨hnone, List.forall_mem_cons.mpr ⟨hself, hrest⟩⟩
        · exact .inr hfound

end Tallied

/-! ## One call -/

theorem GmonParam.SameShape.refl (p : GmonParam) : p.SameShape p :=
  ⟨rfl, rfl, rfl, rfl, rfl, rfl, rfl⟩

theorem newArc_shape (p : GmonParam) (b : Nat) (selfpc : UADDR) (link : UHALF) :
    p.SameShape (newArc p b selfpc link) := by
  unfold newArc
  dsimp only
  split <;> exact ⟨rfl, rfl, rfl, rfl, rfl, rfl, rfl⟩

theorem newArc_kcount (p : GmonParam) (b : Nat) (selfpc : UADDR) (link : UHALF) :
    (newArc p b selfpc link).kcount = p.kcount := by
  unfold newArc
  dsimp only
  split <;> rfl

/-- **A call** from the program is counted, or there is no room for its arc. -/
theorem mcount_spec (hp : p.Shape) (h : Tallied p arcs chain) (hon : p.state = .profOn)
    (hin : frompc - p.lowpc < p.textsize) (selfpc : UADDR) :
    ∃ q, mcount p frompc selfpc = some q ∧ p.SameShape q ∧ q.kcount = p.kcount ∧
      (q.state = .profError ∨ q.state = .profOn ∧
        ∃ chain', Tallied q (arcs ++ [(rounddown frompc 4#32, selfpc)]) chain') := by
  obtain ⟨hb, hsite⟩ := hp.site_call hin
  rw [mcount, if_neg (not_not.mpr hon)]
  dsimp only
  rw [if_neg (BitVec.not_lt.mpr (BitVec.le_of_lt hin)),
    if_neg (show ¬ (p.fromssize / sizeofUHALF).toNat ≤ _ from Nat.not_le.mpr hb)]
  generalize ((frompc - p.lowpc) / (p.hashfraction * sizeofUHALF)).toNat = b at hb hsite ⊢
  rw [← hsite]
  have hchain := h.chains.chained b
  have hnewArc : (∀ i ∈ chain b, (p.tos i).selfpc ≠ selfpc) →
      ((newArc p b selfpc (p.froms b)).state = .profError ∨
        (newArc p b selfpc (p.froms b)).state = .profOn ∧
          ∃ chain', Tallied (newArc p b selfpc (p.froms b)) (arcs ++ [(p.site b, selfpc)])
            chain') := by
    intro hnew
    rw [← hon]
    exact h.newArc hp hb hnew
  cases hc : chain b with
  | nil =>
      rw [hc] at hchain hnewArc
      have hzero : (p.froms b).toNat = 0 := hchain
      have hlink : p.froms b = 0#16 := BitVec.eq_of_toNat_eq hzero
      rw [if_pos hzero]
      rw [hlink] at hnewArc
      exact ⟨_, rfl, newArc_shape .., newArc_kcount ..,
        hnewArc fun i hi => absurd hi List.not_mem_nil⟩
  | cons top rest =>
      rw [hc] at hchain
      have htop : (p.froms b).toNat = top := hchain.1
      have hmem : top ∈ chain b := hc ▸ .head _
      rw [htop, if_neg (h.ne_zero hmem), if_neg (Nat.not_le.mpr (h.lt_tolimit hmem))]
      by_cases hself : (p.tos top).selfpc = selfpc
      · rw [if_pos hself, ← hself]
        exact ⟨_, rfl, ⟨rfl, rfl, rfl, rfl, rfl, rfl, rfl⟩, rfl, .inr ⟨hon, chain, h.bump hp hmem⟩⟩
      · rw [if_neg hself]
        have hrest : rest.length < p.tolimit := by
          have := h.length_lt b
          rw [hc, List.length_cons] at this
          omega
        obtain ⟨hnone, hnot⟩ | ⟨as, a, x, bs, hsplit, hx, hfound⟩ :=
          h.searchArc_cases selfpc (show chain b = [] ++ top :: rest from hc) hrest
        · rw [hnone]
          refine ⟨_, rfl, newArc_shape .., newArc_kcount .., hnewArc ?_⟩
          rw [hc]
          exact List.forall_mem_cons.mpr ⟨hself, hnot⟩
        · rw [hfound]
          have hxmem : x ∈ chain b := hsplit ▸ List.mem_append_right _ (.tail _ (.head _))
          have hmoved := (h.bump hp hxmem).toFront hsplit
          rw [hx] at hmoved
          exact ⟨_, rfl, ⟨rfl, rfl, rfl, rfl, rfl, rfl, rfl⟩, rfl, .inr ⟨hon, _, hmoved⟩⟩

/-- A call from the end of the program, which is behind the last place. -/
theorem mcount_end (hp : p.Shape) (hon : p.state = .profOn) (he : frompc - p.lowpc = p.textsize)
    (selfpc : UADDR) : mcount p frompc selfpc = none := by
  have hlast : ((frompc - p.lowpc) / (p.hashfraction * sizeofUHALF)).toNat = p.places := by
    rw [hp.places_eq, hp.hashfraction, he, BitVec.toNat_udiv]
    rfl
  rw [mcount, if_neg (not_not.mpr hon)]
  dsimp only
  rw [if_neg (BitVec.not_lt.mpr (BitVec.le_of_eq he)),
    if_pos (show (p.fromssize / sizeofUHALF).toNat ≤ _ from Nat.le_of_eq hlast.symm)]

/-! ## Runs -/

/-- What is recorded is what is to be known, unless there was no room for it. -/
structure Records (low high : UADDR) (p : GmonParam) (P : Profile) : Prop where
  shape : p.Shape
  lowpc : p.lowpc = low
  highpc : p.highpc = high
  known : p.state ≠ .profError → p.state = (if P.enabled then .profOn else .profOff) ∧
    (∃ chain, Tallied p P.arcs chain) ∧ ∀ i, p.kcount i = .ofNat 16 (P.ticks.count i)

variable {low high : UADDR} {P : Profile} {ops : List ProfOp} {op : ProfOp}

theorem Records.textsize (h : Records low high p P) : high - low = p.textsize := by
  rw [← h.highpc, ← h.lowpc]
  exact h.shape.highpc

theorem Records.on_iff (h : Records low high p P) (hok : p.state ≠ .profError) :
    p.state = .profOn ↔ P.enabled = true := by
  rw [(h.known hok).1]
  cases P.enabled <;> simp

/-- **A call** is recorded, wherever it comes from. -/
theorem Records.call (h : Records low high p P) (hs : mcount p frompc selfpc = some q) :
    Records low high q (P.note low high (.call frompc selfpc)) := by
  rw [Profile.note]
  by_cases hon : p.state = .profOn
  · have hok : p.state ≠ .profError := by rw [hon]; decide
    have henabled := (h.on_iff hok).mp hon
    rw [henabled, h.textsize]
    rcases BitVec.lt_trichotomy (frompc - low) p.textsize with hin | hend | hout
    · rw [if_pos ⟨rfl, hin⟩]
      obtain ⟨-, ⟨chain, htallied⟩, hkcount⟩ := h.known hok
      rw [← h.lowpc] at hin
      obtain ⟨q', hq', hshape, hsame, hstate⟩ := mcount_spec h.shape htallied hon hin selfpc
      obtain rfl := Option.some.inj (hs.symm.trans hq')
      refine ⟨hshape.shape h.shape, hshape.lowpc.trans h.lowpc, hshape.highpc.trans h.highpc,
        fun hok' => ?_⟩
      obtain ⟨hon', htallied'⟩ := hstate.resolve_left hok'
      rw [hsame]
      exact ⟨by simp [hon'], htallied', hkcount⟩
    · rw [← h.lowpc] at hend
      rw [mcount_end h.shape hon hend] at hs
      exact absurd hs (by simp)
    · rw [if_neg fun hin => absurd hin.2 (BitVec.lt_asymm hout)]
      rw [mcount, if_neg (not_not.mpr hon), h.lowpc] at hs
      dsimp only at hs
      rw [if_pos hout] at hs
      obtain rfl := Option.some.inj hs
      exact h
  · rw [mcount, if_pos hon] at hs
    obtain rfl := Option.some.inj hs
    split
    · next hin => exact { h with known := fun hok => absurd ((h.on_iff hok).mpr hin.1) hon }
    · exact h

/-- **A tick** is recorded. -/
theorem Records.sample (h : Records low high p P) {eip : UADDR}
    (hs : ckProfilSampler p eip = some q) :
    Records low high q (P.note low high (.sample eip)) := by
  rw [Profile.note]
  by_cases hon : p.state = .profOn
  · have hok : p.state ≠ .profError := by rw [hon]; decide
    have henabled := (h.on_iff hok).mp hon
    have htext := h.textsize
    obtain ⟨hshape, rfl, rfl, hknown⟩ := h
    obtain ⟨hstate, ⟨chain, htallied⟩, hkcount⟩ := hknown hok
    rw [ckProfilSampler, if_neg (not_not.mpr hon)] at hs
    dsimp only at hs
    rw [henabled, htext]
    by_cases hin : eip - p.lowpc < p.textsize
    · have hdiv : ((eip - p.lowpc) / (HISTFRACTION * sizeofUHALF)).toNat =
          (eip - p.lowpc).toNat / 4 := BitVec.toNat_udiv
      rw [if_neg (not_not.mpr hin), hdiv] at hs
      rw [if_pos ⟨rfl, hin⟩]
      split at hs
      · exact absurd hs (by simp)
      obtain rfl := Option.some.inj hs
      have hsame : p.SameShape { p with
          kcount := update p.kcount ((eip - p.lowpc).toNat / 4)
            (p.kcount ((eip - p.lowpc).toNat / 4) + 1#16) } := ⟨rfl, rfl, rfl, rfl, rfl, rfl, rfl⟩
      refine ⟨hsame.shape hshape, rfl, rfl, fun _ => ⟨by simp [hon],
        ⟨chain, htallied.congr hsame rfl rfl⟩, fun i => ?_⟩⟩
      dsimp only
      rw [List.count_append]
      rcases eq_or_ne i ((eip - p.lowpc).toNat / 4) with rfl | hne
      · rw [update_self, hkcount, List.count_singleton_self, BitVec.ofNat_add]
      · rw [update_of_ne hne, hkcount,
          List.count_eq_zero_of_not_mem fun hm => hne (List.mem_singleton.mp hm)]
        rfl
    · rw [if_pos hin] at hs
      rw [if_neg fun h => hin h.2]
      obtain rfl := Option.some.inj hs
      exact ⟨hshape, rfl, rfl, hknown⟩
  · rw [ckProfilSampler, if_pos hon] at hs
    obtain rfl := Option.some.inj hs
    split
    · next hin => exact { h with known := fun hok => absurd ((h.on_iff hok).mpr hin.1) hon }
    · exact h

theorem Records.step (h : Records low high p P) (hC : KeepsError p op)
    (hs : profStep p op = some q) : Records low high q (P.note low high op) := by
  cases op with
  | call frompc selfpc => exact h.call hs
  | sample eip => exact h.sample hs
  | control mode =>
      obtain rfl := Option.some.inj hs
      obtain ⟨-, ⟨chain, htallied⟩, hkcount⟩ := h.known hC
      have hsame : p.SameShape (ckProfilerControl p mode) := ⟨rfl, rfl, rfl, rfl, rfl, rfl, rfl⟩
      exact ⟨hsame.shape h.shape, h.lowpc, h.highpc,
        fun _ => ⟨rfl, ⟨chain, htallied.congr hsame rfl rfl⟩, hkcount⟩⟩

theorem Records.run (hr : Run profStep KeepsError p ops q) (h : Records low high p P) :
    Records low high q (ops.foldl (Profile.note low high) P) := by
  induction hr generalizing P with
  | nil _ => exact h
  | cons hC hs _ ih => exact ih (h.step hC hs)

/-- The tables are empty. `CKprofilerStartup` takes them from `CKmemAlloc` and does not see to
it. -/
structure GmonMemory.Zeroed (m : GmonMemory) : Prop where
  kcount : m.kcount = fun _ => 0#16
  froms : m.froms = fun _ => 0#16

theorem arcLimit_bounds (arcs : Nat) : MINARCS ≤ arcLimit arcs ∧ arcLimit arcs ≤ MAXARCS := by
  have hmin : MINARCS = 50 := rfl
  have hmax : MAXARCS = 65534 := rfl
  unfold arcLimit
  split
  · omega
  · split <;> omega

/-- Nothing is known in the beginning. -/
theorem records_startup {m : GmonMemory} (hm : m.Zeroed) (start etext : UADDR) (p : GmonParam)
    (lowpc highpc : UADDR) :
    Records (ckProfilerStartup start etext p lowpc highpc (some m)).lowpc
      (ckProfilerStartup start etext p lowpc highpc (some m)).highpc
      (ckProfilerStartup start etext p lowpc highpc (some m)) ⟨true, [], []⟩ := by
  have hround : ∀ x : UADDR, (x / (HISTFRACTION * sizeofUHALF) *
      (HISTFRACTION * sizeofUHALF)).toNat % 4 = 0 := by
    intro x
    have h4 : HISTFRACTION * sizeofUHALF = 4#32 := rfl
    rw [h4, BitVec.toNat_mul, BitVec.toNat_udiv]
    show x.toNat / 4 * 4 % 2 ^ 32 % 4 = 0
    omega
  have hsub : ∀ x y : UADDR, x.toNat % 4 = 0 → y.toNat % 4 = 0 → (x - y).toNat % 4 = 0 := by
    intro x y hx hy
    rw [BitVec.toNat_sub]
    have := x.isLt
    have := y.isLt
    omega
  refine ⟨⟨hround _, hsub _ _ (hround _) (hround _), rfl, rfl, rfl, rfl, ?_⟩, rfl, rfl,
    fun _ => ⟨rfl, ⟨fun _ => [], ?_⟩, fun i => ?_⟩⟩
  · exact (arcLimit_bounds _).2
  · have hzero : (ckProfilerStartup start etext p lowpc highpc (some m)).next 0 = 0 := by
      show (update m.tos 0 { m.tos 0 with link := 0#16 } 0).link.toNat = 0
      rw [update_self]
      rfl
    constructor
    · have hhead : (ckProfilerStartup start etext p lowpc highpc (some m)).head = fun _ => 0 := by
        show BitVec.toNat ∘ m.froms = _
        rw [hm.froms]
        rfl
      rw [hhead]
      exact Chains.empty
    · exact fun hi => absurd hi List.not_mem_nil
    · rw [hzero]
      exact Nat.lt_of_lt_of_le (by decide : 0 < MINARCS) (arcLimit_bounds _).1
    · exact fun hi => absurd hi List.not_mem_nil
    · exact fun hi => absurd hi List.not_mem_nil
    · exact fun hi => absurd hi List.not_mem_nil
    · exact fun _ => List.nodup_nil
    · exact fun ha => absurd ha List.not_mem_nil
  · show m.kcount i = _
    rw [hm.kcount]
    rfl

/-! ## What is written out -/

/-- The histogram and the call graph are those of a program of `size` places. -/
structure Gmon.Exact (g : Gmon) (P : Profile) (size : Nat) : Prop where
  kcount : g.kcount = (List.range size).map fun i => .ofNat 16 (P.ticks.count i)
  once : (g.arcs.map fun arc => (arc.frompc, arc.selfpc)).Nodup
  arcs : ∀ arc : RawArc, arc ∈ g.arcs ↔ (arc.frompc, arc.selfpc) ∈ P.arcs ∧
    arc.count = .ofNat 32 (P.arcs.count (arc.frompc, arc.selfpc))

/-- The record of an arc. -/
def rawArc (p : GmonParam) (b i : Nat) : RawArc := ⟨p.site b, (p.tos i).selfpc, (p.tos i).count⟩

theorem rawArcs_chain (h : Tallied p arcs chain) (b : Nat) {n top : Nat} {l : List Nat}
    (hl : Chained 0 p.next top l) (hn : l.length < n) (hsub : l ⊆ chain b) :
    rawArcs p (p.site b) n top = some (l.map (rawArc p b)) := by
  induction l generalizing n top with
  | nil =>
      obtain ⟨n, rfl⟩ := Nat.exists_eq_succ_of_ne_zero (Nat.ne_of_gt hn)
      rw [rawArcs, if_pos (show top = 0 from hl)]
      rfl
  | cons x l ih =>
      obtain ⟨n, rfl⟩ := Nat.exists_eq_succ_of_ne_zero (Nat.ne_of_gt (Nat.zero_lt_of_lt hn))
      obtain ⟨rfl, hne, hrest⟩ := hl
      have hih := ih hrest (Nat.lt_of_succ_lt_succ hn) fun i hi => hsub (.tail _ hi)
      rw [rawArcs, if_neg hne, if_neg (Nat.not_le.mpr (h.lt_tolimit (hsub (.head _))))]
      exact congrArg (Option.map _) hih

theorem mapM_some {α β : Type} {f : α → Option β} {g : α → β} {l : List α}
    (h : ∀ a ∈ l, f a = some (g a)) : l.mapM f = some (l.map g) := by
  induction l with
  | nil => rfl
  | cons a l ih =>
      rw [List.mapM_cons, h a (.head _), ih fun b hb => h b (.tail _ hb)]
      rfl

/-- **All chains** are written out. -/
theorem cleanup_tallied (hp : p.Shape) (h : Tallied p arcs chain) (hok : p.state ≠ .profError) :
    ckProfilerCleanup p = some ⟨(List.range p.places).map p.kcount,
      (List.range p.places).flatMap fun b => (chain b).map (rawArc p b)⟩ := by
  have hchains : (List.range p.places).mapM (fun fromindex =>
      rawArcs p (p.lowpc + .ofNat 32 fromindex * p.hashfraction * sizeofUHALF) p.tolimit
        (p.froms fromindex).toNat) =
      some ((List.range p.places).map fun b => (chain b).map (rawArc p b)) :=
    mapM_some fun b _ =>
      rawArcs_chain h b (h.chains.chained b) (h.length_lt b) (List.Subset.refl _)
  have hcount : (p.kcountsize / sizeofUHALF).toNat = p.places := by
    rw [hp.kcountsize, places, hp.fromssize]
  rw [ckProfilerCleanup, if_neg hok, hcount]
  exact (congrArg (Option.bind · _) hchains :)

/-- The arcs of all chains are those that were called. -/
theorem Tallied.exact (h : Tallied p P.arcs chain) (hp : p.Shape)
    (hkcount : ∀ i, p.kcount i = .ofNat 16 (P.ticks.count i)) :
    Gmon.Exact ⟨(List.range p.places).map p.kcount,
      (List.range p.places).flatMap fun b => (chain b).map (rawArc p b)⟩ P p.places where
  kcount := List.map_congr_left fun i _ => hkcount i
  once := by
    rw [List.map_flatMap, List.nodup_flatMap]
    constructor
    · intro b _
      rw [List.map_map]
      refine List.Nodup.of_map Prod.snd ?_
      rw [List.map_map]
      exact h.once b
    · refine List.nodup_range.imp_of_mem ?_
      intro b c hb hc hne arc hb' hc'
      dsimp only at hb' hc'
      rw [List.map_map] at hb' hc'
      obtain ⟨i, -, rfl⟩ := List.mem_map.mp hb'
      obtain ⟨j, -, he⟩ := List.mem_map.mp hc'
      exact hne (hp.site_inj (List.mem_range.mp hb) (List.mem_range.mp hc)
        (congrArg Prod.fst he).symm)
  arcs := by
    intro arc
    rw [List.mem_flatMap]
    constructor
    · rintro ⟨b, -, harc⟩
      obtain ⟨i, hi, rfl⟩ := List.mem_map.mp harc
      exact ⟨h.called hi, h.count hi⟩
    · rintro ⟨hm, hcount⟩
      obtain ⟨b, i, hi, he⟩ := h.complete hm
      obtain ⟨hsite, hself⟩ := Prod.mk.inj he
      refine ⟨b, List.mem_range.mpr (h.inside hi), List.mem_map.mpr ⟨i, hi, ?_⟩⟩
      rw [rawArc, hsite, hself, h.count hi, he, ← hcount]

/-- What is known of a program is exactly what is written out. -/
theorem Records.cleanup (h : Records low high p P) (hok : p.state ≠ .profError) :
    ∃ g, ckProfilerCleanup p = some g ∧ g.Exact P ((high - low).toNat / 4) := by
  obtain ⟨-, ⟨chain, htallied⟩, hkcount⟩ := h.known hok
  rw [h.textsize, ← h.shape.places_eq]
  exact ⟨_, cleanup_tallied h.shape htallied hok, htallied.exact h.shape hkcount⟩

variable {m : GmonMemory} {start etext lowpc highpc : UADDR} {p₀ : GmonParam}

/-- The profiler of a program of 64 bytes, whose tables are empty. -/
def smallProfile : GmonParam :=
  ckProfilerStartup 0#32 0#32
    ⟨.profOff, fun _ => 0#16, 0#32, fun _ => 0#16, 0#32, fun _ => ⟨0#32, 0#32, 0#16⟩, 0, 0#32, 0#32,
      0#32, 0#32⟩ 0x1000#32 0x1040#32
    (some ⟨fun _ => ⟨0#32, 0#32, 0#16⟩, fun _ => 0#16, fun _ => 0#16⟩)

/-- One place calls two functions, and the first of them again. -/
def smallCalls : List ProfOp :=
  [.call 0x1004#32 0x1020#32, .call 0x1005#32 0x1030#32, .sample 0x1031#32,
    .call 0x1007#32 0x1020#32]

end Alliance.Monitor
