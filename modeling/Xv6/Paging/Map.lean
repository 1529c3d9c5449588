import Xv6.Vm.Table
import Xv6.Paging.Uvm

namespace Xv6

open Frame

-- A user page as uvmunmap takes it: resident, or paged out as update_page_out_pte leaves it.
def Unmappable (e : UInt64) : Prop :=
  (has e PTE_V = true ∨ has e PTE_PG = true ∧ PTE2PA e = 0) ∧ PTE_FLAGS e ≠ PTE_V

section Unmap

variable {s t : Kernel} {pt : UInt64}

theorem Tree.congr (tree : Tree s pt) (words : t.words = s.words) (freelist : t.freelist = s.freelist)
    (config : t.config.kernelEnd = s.config.kernelEnd) : Tree t pt := by
  constructor
  case placed => rw [words,config]; exact tree.placed
  case apart => rw [words]; exact tree.apart
  case upper => rw [words]; exact tree.upper
  case fresh => rw [words,freelist,config]; exact tree.fresh
  case nodup => rw [freelist]; exact tree.nodup

theorem Tree.lookup_ne_zero (tree : Tree s pt) {va : UInt64} (mapped : pteAt s.words pt va ≠ 0) :
    lookup s.words pt va ≠ 0 := by
  rw [lookup_eq]
  unfold pteAt at mapped
  cases leaf : leafOf s.words pt va with
  | none => simp [leaf] at mapped
  | some l => exact entryAddr_ne_zero (tree.placed _ l leaf) _

theorem Unmappable.ne_zero {e : UInt64} (mapped : Unmappable e) : e ≠ 0 := by
  rintro rfl
  obtain ⟨present | ⟨paged,-⟩,-⟩ := mapped <;> simp at *

-- One pass of uvmunmap's loop with do_free: it clears the leaf entry and frees no frame, since a
-- resident page is never freed and a paged-out one has none.
theorem uvmunmapLoop_step {a bound : UInt64} {k : Nat} (tree : Tree s pt) (below : a < MAXVA) (inside : a < bound)
    (mapped : Unmappable (pteAt s.words pt a)) :
    ∃ t, uvmunmapLoop pt bound true (k + 1) a s = uvmunmapLoop pt bound true k (a + PGSIZE) t ∧
      t.words = (s.setWord (lookup s.words pt a) 0).words ∧ t.freelist = s.freelist ∧ t.config = s.config := by
  have found := tree.lookup_ne_zero mapped.ne_zero
  have entry := words_lookup found
  have outside : ¬ bound ≤ a := UInt64.not_le.mpr inside
  have walked := walk_noalloc s pt a below
  obtain ⟨present,leafBits⟩ := mapped
  by_cases valid : has (pteAt s.words pt a) PTE_V = true
  · by_cases none : s.config.selection = .NONE
    · refine ⟨s.setWord (lookup s.words pt a) 0,?_,rfl,rfl,rfl⟩
      simp [uvmunmapLoop,outside,bind_of_ok walked,found,loadPte,entry,valid,leafBits,none,storePte]
    · obtain ⟨u,removed,list,mem,config⟩ := remove_from_memory_meta_data_run a pt s
      refine ⟨u.setWord (lookup s.words pt a) 0,?_,by simp only [Kernel.setWord,mem],list,config⟩
      simp [uvmunmapLoop,outside,bind_of_ok walked,found,loadPte,entry,valid,leafBits,none,storePte,
        bind_of_ok removed]
  · have paged := present.resolve_left valid
    refine ⟨s.setWord (lookup s.words pt a) 0,?_,rfl,rfl,rfl⟩
    simp [uvmunmapLoop,outside,bind_of_ok walked,found,loadPte,entry,valid,paged,leafBits,storePte]

theorem uvmunmapLoop_tree (bound : UInt64) (k : Nat) :
    ∀ a s, Tree s pt → a.toNat % 4096 = 0 → bound.toNat ≤ MAXVA.toNat → a.toNat + k * 4096 = bound.toNat →
      (∀ va, a ≤ va → va < bound → Unmappable (pteAt s.words pt va)) →
      ∃ t, uvmunmapLoop pt bound true k a s = .ok ((),t) ∧ Tree t pt ∧
        (∀ n : Node, n.addr t.words pt = n.addr s.words pt) ∧ t.freelist = s.freelist ∧ t.config = s.config ∧
        ∀ va, va.toNat < 2 ^ 39 → pteAt t.words pt va = if a ≤ va ∧ va < bound then 0 else pteAt s.words pt va := by
  induction k with
  | zero =>
    intro a s tree aligned room ends mapped
    have empty : ∀ va, ¬ (a ≤ va ∧ va < bound) := fun va ⟨low,high⟩ => by
      rw [UInt64.le_iff_toNat_le] at low
      rw [UInt64.lt_iff_toNat_lt] at high
      omega
    refine ⟨s,rfl,tree,fun _ => rfl,rfl,rfl,fun va _ => by rw [if_neg (empty va)]⟩
  | succ k ih =>
    intro a s tree aligned room ends mapped
    have top : MAXVA.toNat = 2 ^ 38 := by decide
    have inside : a < bound := UInt64.lt_iff_toNat_lt.mpr (by omega)
    have below : a < MAXVA := UInt64.lt_iff_toNat_lt.mpr (by omega)
    have found := tree.lookup_ne_zero (mapped a (UInt64.le_refl a) inside).ne_zero
    obtain ⟨t,step,words,list,config⟩ := uvmunmapLoop_step (k := k) tree below inside (mapped a (UInt64.le_refl a) inside)
    have tree' : Tree t pt := (tree.store found 0).congr words list (congrArg Config.kernelEnd config)
    have cleared : ∀ va, va.toNat < 2 ^ 39 →
        pteAt t.words pt va = if va.toNat / 4096 = a.toNat / 4096 then 0 else pteAt s.words pt va := fun va small => by
      rw [words,pteAt_store tree found (toNat_lt_of_MAXVA below) 0 small]
    have next : (a + PGSIZE).toNat = a.toNat + 4096 := by
      rw [UInt64.toNat_add]
      simp only [PGSIZE,UInt64.reduceToNat]
      omega
    have mapped' : ∀ va, a + PGSIZE ≤ va → va < bound → Unmappable (pteAt t.words pt va) := fun va low high => by
      rw [UInt64.le_iff_toNat_le,next] at low
      have high' := UInt64.lt_iff_toNat_lt.mp high
      rw [cleared va (by omega),if_neg (by omega)]
      exact mapped va (UInt64.le_iff_toNat_le.mpr (by omega)) high
    obtain ⟨u,run,tree'',addrs,list',config',map⟩ :=
      ih (a + PGSIZE) t tree' (by rw [next]; omega) room (by rw [next]; omega) mapped'
    refine ⟨u,step.trans run,tree'',fun n => (addrs n).trans ?_,list'.trans list,config'.trans config,fun va small => ?_⟩
    · rw [words,addr_store tree found 0 n]
    · rw [map va small,cleared va small]
      simp only [UInt64.le_iff_toNat_le,UInt64.lt_iff_toNat_lt,next]
      by_cases here : va.toNat / 4096 = a.toNat / 4096
      · rw [if_neg (by omega),if_pos here,if_pos (by omega)]
      · by_cases range : a.toNat + 4096 ≤ va.toNat ∧ va.toNat < bound.toNat
        · rw [if_pos range,if_pos (by omega)]
        · rw [if_neg range,if_neg here,if_neg (by omega)]

end Unmap

-- No leaf table holds a valid entry: what freewalk needs not to panic.
def NoLeaves (w : UInt64 → UInt64) (pt : UInt64) : Prop :=
  ∀ i j l k, (Node.leaf i j).addr w pt = some l → has (w (entryAddr l k)) PTE_V = false

section Subtrees

variable {w : UInt64 → UInt64} {pt : UInt64} {m n c c' : Node} {i j : Fin 512}

@[simp] theorem below_self (n : Node) : n.below n = true := by
  cases n <;> simp [Node.below]

theorem below_trans {a b c : Node} (first : a.below b) (second : b.below c) : a.below c := by
  cases a <;> cases b <;> cases c <;> simp_all [Node.below]

theorem below_child (link : m.child i = some c) : m.below c = true := by
  cases m <;> simp only [Node.child,Option.some.injEq,reduceCtorEq] at link <;> subst link <;> simp [Node.below]

theorem not_below_parent (link : m.child i = some c) : c.below m = false := by
  cases m <;> simp only [Node.child,Option.some.injEq,reduceCtorEq] at link <;> subst link <;> simp [Node.below]

theorem below_iff : m.below n ↔ n = m ∨ ∃ i c, m.child i = some c ∧ c.below n := by
  cases m <;> cases n <;> simp [Node.below,Node.child] <;> omega

theorem below_apart (link : m.child i = some c) (link' : m.child j = some c') (other : i ≠ j) (under : c.below n) :
    c'.below n = false := by
  cases m <;> simp only [Node.child,Option.some.injEq,reduceCtorEq] at link link' <;> subst link link' <;>
    cases n <;> simp_all [Node.below] <;> omega

theorem addr_below (under : c.below n) (gone : c.addr w pt = none) : n.addr w pt = none := by
  cases c <;> cases n <;> simp_all [Node.below,Node.addr]

end Subtrees

-- What freewalk at the table of c leaves: the tables of c's subtree on the free list, nothing else written.
def Frees (s t : Kernel) (pt : UInt64) (c : Node) : Prop :=
  ∃ freed, t.freelist = freed ++ s.freelist ∧ freed.Nodup ∧
    (∀ x, x ∈ freed ↔ ∃ n, c.below n ∧ n.addr s.words pt = some x) ∧
    (∀ x, (∀ y ∈ freed, samePage y x = false) → t.words x = s.words x) ∧ t.config = s.config

def FreesAll (f : UInt64 → KM Unit) (pt : UInt64) (c : Node) : Prop :=
  ∀ s a, Tree s pt → NoLeaves s.words pt → c.addr s.words pt = some a → ∃ t, f a s = .ok ((),t) ∧ Frees s t pt c

-- The state while freewalk goes through the entries of the table p.
structure Pruned (s t : Kernel) (pt p : UInt64) (gone : Node → Prop) (freed : List UInt64) : Prop where
  tree : Tree t pt
  clean : NoLeaves t.words pt
  kept : ∀ n, ¬ gone n → n.addr t.words pt = n.addr s.words pt
  dropped : ∀ n, gone n → n.addr t.words pt = none
  freelist : t.freelist = freed ++ s.freelist
  released : ∀ x, x ∈ freed ↔ ∃ n, gone n ∧ n.addr s.words pt = some x
  frame : ∀ x, samePage p x = false → (∀ y ∈ freed, samePage y x = false) → t.words x = s.words x
  config : t.config = s.config

theorem kfree_run {s : Kernel} {p : UInt64} (usable : Usable s.config.kernelEnd p) :
    kfree p s = .ok ((),{s.memset p 1 with freelist := p :: s.freelist}) := by
  have aligned : p % PGSIZE = 0 := by
    apply UInt64.toNat_inj.mp
    simp [UInt64.toNat_mod,PGSIZE,usable.aligned]
  have above : ¬ p < s.config.kernelEnd := UInt64.not_lt.mpr usable.above
  have below : ¬ PHYSTOP ≤ p := UInt64.not_le.mpr usable.below
  simp [kfree,aligned,above,below,memset]

-- Entry i of the table p of m leads to c: freewalk frees c's subtree there and
-- clears the entry.
section Entry

variable {s t : Kernel} {pt p a : UInt64} {m c : Node} {i : Fin 512} {freed : List UInt64}
variable (tree : Tree s pt) (parent : m.addr s.words pt = some p) (link : m.child i = some c)
  (freedIff : ∀ x, x ∈ freed ↔ ∃ n, c.below n ∧ n.addr s.words pt = some x)
  (frame : ∀ x, (∀ y ∈ freed, samePage y x = false) → t.words x = s.words x)
include tree parent freedIff frame

theorem pruned_word {n : Node} {x : UInt64} (node : n.addr s.words pt = some x) (outside : c.below n = false) (j : Fin 512) :
    (t.setWord (entryAddr p i) 0).words (entryAddr x j) = if n = m ∧ j = i then 0 else s.words (entryAddr x j) := by
  have aligned := (tree.placed n x node).aligned
  rw [setWord_words]
  by_cases hit : n = m ∧ j = i
  · obtain ⟨rfl,rfl⟩ := hit
    rw [node] at parent
    cases parent
    simp
  · have apart : entryAddr x j ≠ entryAddr p i := fun same => by
      obtain ⟨xp,ji⟩ := entryAddr_inj aligned (tree.placed m p parent).aligned same
      rw [xp] at node
      exact hit ⟨tree.apart n m p node parent,ji⟩
    rw [if_neg apart,if_neg hit]
    apply frame
    intro y mem
    obtain ⟨n',under,node'⟩ := (freedIff y).mp mem
    rw [samePage_entryAddr (tree.placed n' y node').aligned aligned,decide_eq_false_iff_not]
    rintro rfl
    rw [tree.apart n' n y node' node] at under
    rw [under] at outside
    cases outside

include link

theorem pruned_kept {n : Node} (outside : c.below n = false) :
    n.addr (t.setWord (entryAddr p i) 0).words pt = n.addr s.words pt := by
  apply addr_congr
  intro m' i' c' x link' under node
  have notBelow : c.below m' = false := by
    by_contra inside
    have deeper := below_trans (below_trans (Bool.not_eq_false _ ▸ inside) (below_child link')) under
    rw [deeper] at outside
    cases outside
  rw [pruned_word tree parent freedIff frame node notBelow,if_neg]
  rintro ⟨rfl,rfl⟩
  rw [Option.some.inj (link'.symm.trans link)] at under
  rw [under] at outside
  cases outside

theorem pruned_dropped {n : Node} (under : c.below n) : n.addr (t.setWord (entryAddr p i) 0).words pt = none := by
  apply addr_below under
  rw [addr_child link,pruned_kept tree parent link freedIff frame (not_below_parent link),parent]
  simp [down]

variable (clean : NoLeaves s.words pt) (nodup : freed.Nodup) (list : t.freelist = freed ++ s.freelist)
  (config : t.config = s.config)
include clean nodup list config

theorem Pruned.entry : Pruned s (t.setWord (entryAddr p i) 0) pt p (fun n => c.below n) freed := by
  have kept : ∀ n, ¬ c.below n → n.addr (t.setWord (entryAddr p i) 0).words pt = n.addr s.words pt :=
    fun n outside => pruned_kept tree parent link freedIff frame (Bool.not_eq_true _ ▸ outside)
  have dropped : ∀ n, c.below n → n.addr (t.setWord (entryAddr p i) 0).words pt = none :=
    fun n under => pruned_dropped tree parent link freedIff frame under
  -- a node with a table after the clearing is outside c's subtree
  have survives : ∀ n x, n.addr (t.setWord (entryAddr p i) 0).words pt = some x →
      c.below n = false ∧ n.addr s.words pt = some x := fun n x node => by
    by_cases under : c.below n
    · rw [dropped n under] at node
      cases node
    · exact ⟨Bool.not_eq_true _ ▸ under,(kept n under).symm.trans node⟩
  have config' : (t.setWord (entryAddr p i) 0).config = s.config := config
  refine ⟨⟨?_,?_,?_,?_,?_⟩,?_,kept,dropped,list,freedIff,fun x other outside => ?_,config'⟩
  · intro n x node
    rw [config']
    exact tree.placed n x (survives n x node).2
  · intro n n' x node node'
    exact tree.apart n n' x (survives n x node).2 (survives n' x node').2
  · intro n j c' x link' node
    obtain ⟨outside,node⟩ := survives n x node
    rw [pruned_word tree parent freedIff frame node outside]
    split_ifs
    · intro valid
      simp at valid
    · exact tree.upper n j c' x link' node
  · intro r mem
    rw [setWord_freelist,list,List.mem_append] at mem
    rw [config']
    rcases mem with mine | free
    · obtain ⟨n',under,node'⟩ := (freedIff r).mp mine
      refine ⟨tree.placed n' r node',fun n node => ?_⟩
      obtain ⟨outside,node⟩ := survives n r node
      rw [tree.apart n n' r node node',under] at outside
      cases outside
    · obtain ⟨usable,fresh⟩ := tree.fresh r free
      exact ⟨usable,fun n node => fresh n (survives n r node).2⟩
  · rw [setWord_freelist,list]
    refine List.nodup_append.mpr ⟨nodup,tree.nodup,fun x mine y free same => ?_⟩
    obtain ⟨n',-,node'⟩ := (freedIff x).mp mine
    exact (tree.fresh y free).2 n' (same ▸ node')
  · intro i' j' l k node
    obtain ⟨outside,node⟩ := survives _ l node
    rw [pruned_word tree parent freedIff frame node outside]
    split_ifs
    · simp
    · exact clean i' j' l k node
  · have apart : x ≠ entryAddr p i := by
      rintro rfl
      rw [samePage_entryAddr (tree.placed m p parent).aligned (tree.placed m p parent).aligned] at other
      simp at other
    rw [setWord_words,if_neg apart]
    exact frame x outside

end Entry

section Entries

variable {s t u : Kernel} {pt p : UInt64} {m : Node} {g g' : Node → Prop} {freed freed' : List UInt64}

theorem Pruned.refl (tree : Tree s pt) (clean : NoLeaves s.words pt) : Pruned s s pt p (fun _ => False) [] :=
  ⟨tree,clean,fun _ _ => rfl,fun _ no => no.elim,rfl,fun x => by simp,fun _ _ _ => rfl,rfl⟩

theorem Pruned.congr (pruned : Pruned s t pt p g freed) (same : ∀ n, g n ↔ g' n) : Pruned s t pt p g' freed :=
  ⟨pruned.tree,pruned.clean,fun n outside => pruned.kept n fun inside => outside ((same n).mp inside),
    fun n inside => pruned.dropped n ((same n).mpr inside),pruned.freelist,
    fun x => (pruned.released x).trans (exists_congr fun n => and_congr_left' (same n)),pruned.frame,pruned.config⟩

theorem Pruned.trans (first : Pruned s t pt p g freed) (second : Pruned t u pt p g' freed')
    (apart : ∀ n, g' n → ¬ g n) : Pruned s u pt p (fun n => g n ∨ g' n) (freed' ++ freed) := by
  refine ⟨second.tree,second.clean,fun n outside => ?_,fun n inside => ?_,?_,fun x => ?_,fun x other outside => ?_,
    second.config.trans first.config⟩
  · rw [second.kept n fun later => outside (.inr later),first.kept n fun earlier => outside (.inl earlier)]
  · by_cases later : g' n
    · exact second.dropped n later
    · rw [second.kept n later]
      exact first.dropped n (inside.resolve_right later)
  · rw [second.freelist,first.freelist,List.append_assoc]
  · rw [List.mem_append,second.released x,first.released x]
    constructor
    · rintro (⟨n,later,node⟩ | ⟨n,earlier,node⟩)
      · exact ⟨n,.inr later,(first.kept n (apart n later)).symm.trans node⟩
      · exact ⟨n,.inl earlier,node⟩
    · rintro ⟨n,earlier | later,node⟩
      · exact .inr ⟨n,earlier,node⟩
      · exact .inl ⟨n,later,(first.kept n (apart n later)).trans node⟩
  · rw [second.frame x other fun y mem => outside y (List.mem_append_left _ mem),
      first.frame x other fun y mem => outside y (List.mem_append_right _ mem)]

theorem freewalkEntries_cons {c : Node} {i : Fin 512} {f : UInt64 → KM Unit} (sub : FreesAll f pt c) (tree : Tree s pt)
    (clean : NoLeaves s.words pt) (parent : m.addr s.words pt = some p) (link : m.child i = some c) (l : List Nat) :
    ∃ t freed, freewalkEntries f p (i.val :: l) s = freewalkEntries f p l t ∧ Pruned s t pt p (fun n => c.below n) freed := by
  have slot : p + 8 * i.val.toUInt64 = entryAddr p i := rfl
  cases childAt : c.addr s.words pt with
  | none =>
    -- an invalid entry is passed over
    have invalid : has (s.words (entryAddr p i)) PTE_V = false := by
      rw [addr_child link,parent] at childAt
      simpa [down] using childAt
    refine ⟨s,[],?_,⟨tree,clean,fun _ _ => rfl,fun n under => addr_below under childAt,rfl,fun x => ?_,
      fun _ _ _ => rfl,rfl⟩⟩
    · simp [freewalkEntries,slot,invalid]
    · simp only [List.not_mem_nil,false_iff]
      rintro ⟨n,under,node⟩
      rw [addr_below under childAt] at node
      cases node
  | some a =>
    have found : down s.words p i = some a := by
      rw [addr_child link,parent] at childAt
      exact childAt
    have valid : has (s.words (entryAddr p i)) PTE_V = true := by
      by_contra invalid
      simp [down,invalid] at found
    have target : PTE2PA (s.words (entryAddr p i)) = a := by
      simpa [down,valid] using found
    have interior := tree.upper m i c p link parent valid
    obtain ⟨t,run,freed,list,nodup,freedIff,frame,config⟩ := sub s a tree clean childAt
    refine ⟨t.setWord (entryAddr p i) 0,freed,?_,Pruned.entry tree parent link freedIff frame clean nodup list config⟩
    simp [freewalkEntries,slot,valid,interior,target,bind_of_ok run]

theorem freewalkEntries_pruned {f : UInt64 → KM Unit} (sub : ∀ i c, m.child i = some c → FreesAll f pt c)
    (upper : ∀ i, ∃ c, m.child i = some c) (l : List (Fin 512)) (nodup : l.Nodup) :
    ∀ s, Tree s pt → NoLeaves s.words pt → m.addr s.words pt = some p →
      ∃ t freed, freewalkEntries f p (l.map Fin.val) s = .ok ((),t) ∧
        Pruned s t pt p (fun n => ∃ i ∈ l, ∃ c, m.child i = some c ∧ c.below n) freed := by
  induction l with
  | nil =>
    intro s tree clean _
    exact ⟨s,[],rfl,(Pruned.refl tree clean).congr fun n => by simp⟩
  | cons i l ih =>
    intro s tree clean parent
    obtain ⟨c,link⟩ := upper i
    obtain ⟨t,freed,step,first⟩ := freewalkEntries_cons (sub i c link) tree clean parent link (l.map Fin.val)
    have parent' : m.addr t.words pt = some p := (first.kept m (by simp [not_below_parent link])).trans parent
    obtain ⟨u,freed',run,second⟩ := ih (List.nodup_cons.mp nodup).2 t first.tree first.clean parent'
    refine ⟨u,freed' ++ freed,?_,(first.trans second ?_).congr fun n => ?_⟩
    · rw [List.map_cons,step,run]
    · -- the later children's subtrees are apart from c's
      rintro n ⟨j,mem,c',link',under⟩
      have other : j ≠ i := fun same => (List.nodup_cons.mp nodup).1 (same ▸ mem)
      simp [below_apart link' link other under]
    · simp [link]

theorem freewalkEntries_skip {f : UInt64 → KM Unit} (ks : List Nat)
    (skip : ∀ k ∈ ks, has (s.words (p + 8 * k.toUInt64)) PTE_V = false) : freewalkEntries f p ks s = .ok ((),s) := by
  induction ks with
  | nil => rfl
  | cons k ks ih =>
    have invalid := skip k (by simp)
    simp [freewalkEntries,invalid,ih fun k' mem => skip k' (by simp [mem])]

end Entries

section Freewalk

variable {pt : UInt64}

theorem freewalk_leaf (h : Nat) (i j : Fin 512) : FreesAll (freewalk (h + 1)) pt (.leaf i j) := by
  intro s l tree clean leafAt
  have usable := tree.placed _ l leafAt
  have skip : ∀ k ∈ List.range 512, has (s.words (l + 8 * k.toUInt64)) PTE_V = false := fun k mem =>
    clean i j l ⟨k,List.mem_range.mp mem⟩ leafAt
  refine ⟨{s.memset l 1 with freelist := l :: s.freelist},?_,[l],rfl,List.nodup_singleton l,fun x => ?_,
    fun x outside => ?_,rfl⟩
  · simp only [freewalk,bind_of_ok (freewalkEntries_skip _ skip),kfree_run usable]
  · rw [List.mem_singleton]
    constructor
    · rintro rfl
      exact ⟨.leaf i j,below_self _,leafAt⟩
    · rintro ⟨n,under,node⟩
      cases n <;> simp [Node.below] at under
      obtain ⟨rfl,rfl⟩ := under
      rw [leafAt] at node
      exact (Option.some.inj node).symm
  · have other := outside l (by simp)
    simp [Kernel.memset,other]

theorem freewalk_upper {h : Nat} {m : Node} (upper : ∀ i, ∃ c, m.child i = some c)
    (sub : ∀ i c, m.child i = some c → FreesAll (freewalk h) pt c) : FreesAll (freewalk (h + 1)) pt m := by
  intro s p tree clean parent
  obtain ⟨t,freed,run,pruned⟩ :=
    freewalkEntries_pruned sub upper (List.finRange 512) (List.nodup_finRange 512) s tree clean parent
  have usable : Usable t.config.kernelEnd p := pruned.config ▸ tree.placed m p parent
  refine ⟨{t.memset p 1 with freelist := p :: t.freelist},?_,p :: freed,by simp [pruned.freelist],?_,fun x => ?_,
    fun x outside => ?_,pruned.config⟩
  · simp only [freewalk,← List.map_coe_finRange_eq_range,bind_of_ok run,kfree_run usable]
  · have tail : freed.Nodup := (List.nodup_append.mp (pruned.freelist ▸ pruned.tree.nodup)).1
    refine List.nodup_cons.mpr ⟨fun mem => ?_,tail⟩
    obtain ⟨n,⟨i,-,c,link,under⟩,node⟩ := (pruned.released p).mp mem
    rw [tree.apart n m p node parent,not_below_parent link] at under
    cases under
  · rw [List.mem_cons,pruned.released x]
    constructor
    · rintro (rfl | ⟨n,⟨i,-,c,link,under⟩,node⟩)
      · exact ⟨m,below_self m,parent⟩
      · exact ⟨n,below_trans (below_child link) under,node⟩
    · rintro ⟨n,under,node⟩
      rcases below_iff.mp under with rfl | ⟨i,c,link,under'⟩
      · rw [parent] at node
        exact .inl (Option.some.inj node).symm
      · exact .inr ⟨n,⟨i,List.mem_finRange i,c,link,under'⟩,node⟩
  · have page : samePage p x = false := outside p (by simp)
    have rest : ∀ y ∈ freed, samePage y x = false := fun y mem => outside y (by simp [mem])
    simp only [Kernel.memset,page,cond_false]
    exact pruned.frame x page rest

theorem freewalk_mid (h : Nat) (i : Fin 512) : FreesAll (freewalk (h + 2)) pt (.mid i) :=
  freewalk_upper (fun j => ⟨_,rfl⟩) fun j c link => by
    simp only [Node.child,Option.some.injEq] at link
    subst link
    exact freewalk_leaf h i j

theorem freewalk_root (h : Nat) : FreesAll (freewalk (h + 3)) pt .root :=
  freewalk_upper (fun i => ⟨_,rfl⟩) fun i c link => by
    simp only [Node.child,Option.some.injEq] at link
    subst link
    exact freewalk_mid h i

end Freewalk

def pageAddr (i j k : Fin 512) : UInt64 := ((i.val * 2 ^ 18 + j.val * 2 ^ 9 + k.val) * 4096).toUInt64

section Leaves

variable {w : UInt64 → UInt64} {pt : UInt64}

theorem pageAddr_toNat (i j k : Fin 512) : (pageAddr i j k).toNat = (i.val * 2 ^ 18 + j.val * 2 ^ 9 + k.val) * 4096 := by
  have small : (i.val * 2 ^ 18 + j.val * 2 ^ 9 + k.val) * 4096 < 2 ^ 64 := by omega
  rw [pageAddr,Nat.toUInt64_eq,UInt64.toNat_ofNat',Nat.mod_eq_of_lt small]

theorem ix_pageAddr (i j k : Fin 512) : ix 2 (pageAddr i j k) = i ∧ ix 1 (pageAddr i j k) = j ∧ ix 0 (pageAddr i j k) = k := by
  have two : (PXSHIFT 2).toNat % 64 = 30 := by decide
  have one : (PXSHIFT 1).toNat % 64 = 21 := by decide
  have zero : (PXSHIFT 0).toNat % 64 = 12 := by decide
  simp only [ix,Fin.ext_iff,PX_toNat,two,one,zero,pageAddr_toNat]
  omega

theorem noLeaves_of_pteAt (none : ∀ va : UInt64, va.toNat < 2 ^ 39 → has (pteAt w pt va) PTE_V = false) :
    NoLeaves w pt := by
  intro i j l k leafAt
  obtain ⟨two,one,zero⟩ := ix_pageAddr i j k
  have entry : pteAt w pt (pageAddr i j k) = w (entryAddr l k) := by
    simp [pteAt,leafOf,two,one,zero,leafAt]
  rw [← entry]
  exact none _ (by rw [pageAddr_toNat]; omega)

theorem pteAt_beyond {k : Nat} (top : ∀ i : Fin 512, i.val ≠ 0 → (Node.mid i).addr w pt = none)
    (mid : ∀ j : Fin 512, j.val ≠ 0 → (Node.leaf 0 j).addr w pt = none)
    (leaf : ∀ l : Fin 512, k ≤ l.val → has (pteAt w pt (pageAddr 0 0 l)) PTE_V = false)
    {va : UInt64} (below : va.toNat < 2 ^ 39) (high : k * 4096 ≤ va.toNat) : has (pteAt w pt va) PTE_V = false := by
  have indices := ix_pageAddr (ix 2 va) (ix 1 va) (ix 0 va)
  have split : va.toNat / 4096 = (ix 2 va).val * 2 ^ 18 + (ix 1 va).val * 2 ^ 9 + (ix 0 va).val := by
    have same := page_of_ix below (by rw [pageAddr_toNat]; omega) ⟨indices.1.symm,indices.2.1.symm,indices.2.2.symm⟩
    rw [same,pageAddr_toNat]
    omega
  by_cases first : (ix 2 va).val = 0
  · have atZero : ix 2 va = 0 := Fin.ext first
    by_cases second : (ix 1 va).val = 0
    · have page : va.toNat / 4096 = (pageAddr 0 0 (ix 0 va)).toNat / 4096 := by
        rw [pageAddr_toNat]
        omega
      rw [pteAt_page page]
      exact leaf _ (by omega)
    · have none : leafOf w pt va = none := by
        rw [leafOf,atZero]
        exact mid _ second
      simp [pteAt,none,has_zero]
  · have none : leafOf w pt va = none := by
      have missing := top _ first
      simp only [Node.addr] at missing
      simp [leafOf,Node.addr,missing]
    simp [pteAt,none,has_zero]

end Leaves

theorem uvmfree_frees_tables {s : Kernel} {pt sz : UInt64} (tree : Tree s pt) (room : PGROUNDUP sz ≤ MAXVA)
    (user : ∀ va, va < PGROUNDUP sz → Unmappable (pteAt s.words pt va))
    (only : ∀ va : UInt64, va.toNat < 2 ^ 39 → PGROUNDUP sz ≤ va → has (pteAt s.words pt va) PTE_V = false) :
    ∃ t freed, uvmfree pt sz s = .ok ((),t) ∧ t.freelist = freed ++ s.freelist ∧ freed.Nodup ∧
      ∀ x, x ∈ freed ↔ ∃ n : Node, n.addr s.words pt = some x := by
  -- what freewalk does from any state of the same tree with no valid leaf
  have finish : ∀ u, Tree u pt → NoLeaves u.words pt → (∀ n : Node, n.addr u.words pt = n.addr s.words pt) →
      u.freelist = s.freelist → ∃ t freed, freewalk KSTACKFRAMES pt u = .ok ((),t) ∧ t.freelist = freed ++ s.freelist ∧
        freed.Nodup ∧ ∀ x, x ∈ freed ↔ ∃ n : Node, n.addr s.words pt = some x := by
    intro u tree' clean addrs list
    obtain ⟨t,run,freed,list',nodup,freedIff,-,-⟩ := freewalk_root (KSTACKFRAMES - 3) u pt tree' clean rfl
    refine ⟨t,freed,run,list'.trans (by rw [list]),nodup,fun x => (freedIff x).trans ?_⟩
    simp [addrs,Node.below]
  by_cases nonempty : sz > 0
  · have rounded := PGROUNDDOWN_toNat (sz + PGSIZE - 1)
    have top : MAXVA.toNat = 2 ^ 38 := by decide
    have small := UInt64.le_iff_toNat_le.mp room
    change PGROUNDDOWN (sz + PGSIZE - 1) ≤ MAXVA at room
    have bound : 0 + PGROUNDUP sz / PGSIZE * PGSIZE = PGROUNDUP sz := by
      apply UInt64.toNat_inj.mp
      have aligned : (PGROUNDUP sz).toNat % 4096 = 0 := by
        change (PGROUNDDOWN (sz + PGSIZE - 1)).toNat % 4096 = 0
        omega
      rw [UInt64.zero_add,UInt64.toNat_mul,UInt64.toNat_div]
      simp only [PGSIZE,UInt64.reduceToNat]
      omega
    have count : (PGROUNDUP sz / PGSIZE).toNat * 4096 = (PGROUNDUP sz).toNat := by
      rw [UInt64.toNat_div]
      simp only [PGSIZE,UInt64.reduceToNat]
      change (PGROUNDDOWN (sz + PGSIZE - 1)).toNat / 4096 * 4096 = (PGROUNDDOWN (sz + PGSIZE - 1)).toNat
      omega
    obtain ⟨u,run,tree',addrs,list,-,map⟩ := uvmunmapLoop_tree (PGROUNDUP sz) (PGROUNDUP sz / PGSIZE).toNat 0 s
      tree (by simp) small (by rw [UInt64.toNat_zero,Nat.zero_add,count]) fun va _ high => user va high
    have clean : NoLeaves u.words pt := noLeaves_of_pteAt fun va below => by
      rw [map va below]
      split_ifs with inside
      · simp
      · exact only va below (UInt64.not_lt.mp fun high => inside ⟨UInt64.zero_le,high⟩)
    obtain ⟨t,freed,walked,rest⟩ := finish u tree' clean addrs list
    have unmapped : uvmunmap pt 0 (PGROUNDUP sz / PGSIZE) true s = .ok ((),u) := by
      simp only [uvmunmap,bound]
      simpa using run
    exact ⟨t,freed,by simp [uvmfree,nonempty,bind_of_ok unmapped,walked],rest⟩
  · have zero : PGROUNDUP sz = 0 := by
      have none : sz = 0 := UInt64.toNat_inj.mp (by simpa [UInt64.lt_iff_toNat_lt] using nonempty)
      rw [none]
      decide
    have clean : NoLeaves s.words pt := noLeaves_of_pteAt fun va below => only va below (by rw [zero]; exact UInt64.zero_le)
    obtain ⟨t,freed,walked,rest⟩ := finish s tree clean (fun _ => rfl) rfl
    exact ⟨t,freed,by simp [uvmfree,nonempty,walked],rest⟩

def blankKernel : Kernel where
  config := ⟨.NONE,0x80022000,0x80007000⟩
  freelist := [0x80101000,0x80102000]
  bytes := fun _ => 0
  words := fun _ => 0
  proc := fun _ => .unused
  cur := ⟨0,NPROC_pos⟩
  initproc := none
  nextpid := 1
  file := fun _ => .unused
  inode := fun _ => .free
  root := []
  oplog := []

theorem blankKernel_tree : Tree blankKernel 0x80100000 := by
  refine Tree.root_only (fun _ => has_zero PTE_V) ⟨by decide,by decide,by decide,by decide⟩ (fun r mem => ?_) (by decide)
  simp only [blankKernel,List.mem_cons,List.not_mem_nil,or_false] at mem
  rcases mem with rfl | rfl <;> exact ⟨⟨by decide,by decide,by decide,by decide⟩,by decide⟩

def mappedKernel : Kernel :=
  match mappages 0x80100000 0x200000 0x1000 0x80200000 (PTE_R ||| PTE_W) blankKernel with
  | .ok (_,t) => t
  | .error _ => blankKernel

theorem mappages_blank : mappages 0x80100000 0x200000 0x1000 0x80200000 (PTE_R ||| PTE_W) blankKernel = .ok (0,mappedKernel) :=
  rfl

-- Mapping 0x1FF000 .. 0x200FFF from there: the first page needs a leaf table, none is left, and
-- mappages returns -1 although the second page is valid.
theorem mappages_short_of_tables_skips_remap :
    Tree mappedKernel 0x80100000 ∧ mappedKernel.freelist = [] ∧
      InRange (PGROUNDDOWN 0x1FF000) (lastPage 0x1FF000 0x2000) 0x200000 ∧
      has (pteAt mappedKernel.words 0x80100000 0x200000) PTE_V = true ∧
      ∃ u, mappages 0x80100000 0x1FF000 0x2000 0x80300000 (PTE_R ||| PTE_W) mappedKernel = .ok (-1,u) :=
  ⟨(mappages_tree blankKernel_tree (by decide) (by decide) mappages_blank).1,rfl,by decide,by decide,_,rfl⟩

theorem page_table_maps_pages :
    (∀ (s : Kernel) (pt va : UInt64), Tree s pt → va < MAXVA →
      ∃ t, walk pt va true s = .ok (lookup t.words pt va,t) ∧ Tree t pt ∧ Grows s t pt ∧
        (lookup t.words pt va = 0 → s.freelist.length < 2) ∧
        ∀ u, Grows t u pt → ∀ va' : UInt64, va'.toNat / 4096 = va.toNat / 4096 → ∀ alloc, lookup t.words pt va ≠ 0 →
          walk pt va' alloc u = .ok (lookup t.words pt va,u)) ∧
    (∀ (s : Kernel) (pt va va' : UInt64), Tree s pt → va < MAXVA → va' < MAXVA → va.toNat / 4096 ≠ va'.toNat / 4096 →
      lookup s.words pt va ≠ 0 → lookup s.words pt va ≠ lookup s.words pt va') ∧
    (∀ (s : Kernel) (pt va size pa perm : UInt64) (res : Except String (Int × Kernel)), Tree s pt → 0 < size →
      va.toNat + size.toNat ≤ MAXVA.toNat → mappages pt va size pa perm s = res →
      MapOutcome s pt (PGROUNDDOWN va) (lastPage va size) pa perm res ∧
      (2 * (lastPage va size + 1) ≤ s.freelist.length →
        (res = .error "remap" ↔ ∃ va' < MAXVA, InRange (PGROUNDDOWN va) (lastPage va size) va' ∧
          has (pteAt s.words pt va') PTE_V = true))) ∧
    (∀ (s : Kernel) (pt sz : UInt64), Tree s pt → PGROUNDUP sz ≤ MAXVA →
      (∀ va, va < PGROUNDUP sz → Unmappable (pteAt s.words pt va)) →
      (∀ va : UInt64, va.toNat < 2 ^ 39 → PGROUNDUP sz ≤ va → has (pteAt s.words pt va) PTE_V = false) →
      ∃ t freed, uvmfree pt sz s = .ok ((),t) ∧ t.freelist = freed ++ s.freelist ∧ freed.Nodup ∧
        ∀ x, x ∈ freed ↔ ∃ n : Node, n.addr s.words pt = some x) :=
  ⟨fun _ _ _ tree below => walk_slot_stays tree below,
    fun _ _ _ _ tree below below' pages found => lookup_apart tree below below' pages found,
    fun _ _ _ _ _ _ _ tree nonempty room ran =>
      ⟨mappages_tree tree nonempty room ran,(mappages_tree tree nonempty room ran).remap_iff⟩,
    fun _ _ _ tree room user only => uvmfree_frees_tables tree room user only⟩

-- The table uvmcreate makes at 0x80100000; pages 0 and 1 mapped, then page 1 paged out.
def bootKernel : Kernel :=
  {blankKernel with freelist := [0x80100000,0x80101000,0x80102000,0x80103000,0x80104000,0x80105000,0x80106000]}

def userKernel : Kernel :=
  match uvmcreate bootKernel with
  | .ok (_,t) => t
  | .error _ => bootKernel

def twoPages : Kernel :=
  match mappages 0x80100000 0 0x2000 0x80200000 (PTE_R ||| PTE_W ||| PTE_U) userKernel with
  | .ok (_,t) => t
  | .error _ => userKernel

def pagedOut : Kernel :=
  match update_page_out_pte 0x80100000 0x1000 twoPages with
  | .ok (_,t) => t
  | .error _ => twoPages

theorem userKernel_tree : Tree userKernel 0x80100000 := by
  have usable : ∀ x ∈ bootKernel.freelist, Usable bootKernel.config.kernelEnd x := by
    intro x mem
    simp only [bootKernel,blankKernel,List.mem_cons,List.not_mem_nil,or_false] at mem
    rcases mem with rfl | rfl | rfl | rfl | rfl | rfl | rfl <;> exact ⟨by decide,by decide,by decide,by decide⟩
  obtain ⟨t,made,tree,-⟩ := uvmcreate_tree rfl usable (by decide)
  have same : userKernel = t := by simp only [userKernel,made]
  rw [same]
  exact tree

theorem pagedOut_eq : pagedOut = twoPages.setWord (lookup twoPages.words 0x80100000 0x1000)
    (((pteAt twoPages.words 0x80100000 0x1000 &&& PTE_FLAGS (pteAt twoPages.words 0x80100000 0x1000)) ||| PTE_PG) &&&
      ~~~PTE_V) :=
  rfl

theorem page_table_maps_paged_image :
    MapOutcome userKernel 0x80100000 (PGROUNDDOWN 0) (lastPage 0 0x2000) 0x80200000 (PTE_R ||| PTE_W ||| PTE_U)
      (.ok (0,twoPages)) ∧
    has (pteAt pagedOut.words 0x80100000 0) PTE_V = true ∧ has (pteAt pagedOut.words 0x80100000 0x1000) PTE_PG = true ∧
    lookup pagedOut.words 0x80100000 0 ≠ lookup pagedOut.words 0x80100000 0x1000 ∧
    mappages 0x80100000 0 0x1000 0x80300000 (PTE_R ||| PTE_W) pagedOut = .error "remap" ∧
    ∃ t freed, uvmfree 0x80100000 0x2000 pagedOut = .ok ((),t) ∧ t.freelist = freed ++ pagedOut.freelist ∧
      freed.Nodup ∧ ∀ x, x ∈ freed ↔ ∃ n : Node, n.addr pagedOut.words 0x80100000 = some x := by
  have parts := page_table_maps_pages
  have mapped := parts.2.2.1 userKernel 0x80100000 0 0x2000 0x80200000 (PTE_R ||| PTE_W ||| PTE_U) _ userKernel_tree
    (by decide) (by decide) (rfl : mappages _ _ _ _ _ userKernel = .ok (0,twoPages))
  have paged : Tree pagedOut 0x80100000 := by
    rw [pagedOut_eq]
    exact Tree.store mapped.1.1 (by decide) _
  -- below the image, page 0 is resident and page 1 in the file
  have user : ∀ va, va < PGROUNDUP 0x2000 → Unmappable (pteAt pagedOut.words 0x80100000 va) := by
    intro va below
    have small : va.toNat < 0x2000 := UInt64.lt_iff_toNat_lt.mp below
    have pages : (0 : UInt64).toNat / 4096 = 0 ∧ (0x1000 : UInt64).toNat / 4096 = 1 := ⟨rfl,rfl⟩
    rcases (by omega : va.toNat / 4096 = (0 : UInt64).toNat / 4096 ∨ va.toNat / 4096 = (0x1000 : UInt64).toNat / 4096)
      with page | page <;> rw [pteAt_page page] <;> unfold Unmappable <;> decide
  -- above it, no valid entry
  have only : ∀ va : UInt64, va.toNat < 2 ^ 39 → PGROUNDUP 0x2000 ≤ va → has (pteAt pagedOut.words 0x80100000 va) PTE_V = false := by
    intro va below high
    have edge : (PGROUNDUP 0x2000).toNat = 2 * 4096 := by decide
    refine pteAt_beyond (k := 2) (by decide +kernel) (by decide +kernel) (by decide +kernel) below ?_
    rw [← edge]
    exact UInt64.le_iff_toNat_le.mp high
  refine ⟨mapped.1,by decide,by decide,parts.2.1 pagedOut 0x80100000 0 0x1000 paged (by decide) (by decide) (by decide) (by decide),?_,
    parts.2.2.2 pagedOut 0x80100000 0x2000 paged (by decide) user only⟩
  exact ((parts.2.2.1 pagedOut 0x80100000 0 0x1000 0x80300000 (PTE_R ||| PTE_W) _ paged (by decide) (by decide) rfl).2
    (by decide)).mpr ⟨0,by decide,by decide,by decide⟩

end Xv6
