import Mathlib.Data.List.GetD
import Mathlib.Data.Nat.Digits.Defs
import Xv6.Fs.Path
import Xv6.Lib.Writes

namespace Xv6

namespace Tree

open BlockWrites

-- kernel/fs.c
def DIGITS : Nat := 14

-- char const digit[] = "0123456789"; digit[i % 10]
def digit (d : Nat) : Char := "0123456789".toList.getD d '\x00'

-- do { ++p; shifter = shifter / 10; } while (shifter): how far p moves.
def itoaSkip : Nat → Nat → Nat
  | 0,_ => 0
  | fuel + 1,shifter => if shifter / 10 = 0 then 1 else itoaSkip fuel (shifter / 10) + 1

-- do { *--p = digit[i % 10]; i = i / 10; } while (i): the stores, as (offset from b, byte).
def itoaDigits : Nat → Nat → Nat → List (Nat × Char)
  | 0,_,_ => []
  | fuel + 1,p,i => (p - 1,digit (i % 10)) :: if i / 10 = 0 then [] else itoaDigits fuel (p - 1) (i / 10)

-- itoa(i, b): every store it makes into b; i is an integer, so i *= -1 does not overflow at INT_MIN.
def itoa (i : Int) : List (Nat × Char) :=
  let sign : List (Nat × Char) := if i < 0 then [(0,'-')] else []
  let n := i.natAbs
  let p := sign.length + itoaSkip (n + 1) n
  sign ++ (p,'\x00') :: itoaDigits (n + 1) p n

-- char path[DIGITS]; memmove(path, "/.swap", 6); itoa(p->pid, path + 6): the stores into path.
def swapPathStores (pid : Int) : List (Nat × Char) :=
  "/.swap".toList.zipIdx.map (fun x => (x.2,x.1)) ++ (itoa pid).map fun w => (6 + w.1,w.2)

def stores (ws : List (Nat × Char)) : List (Write Char) := ws.map fun w => ⟨w.1,fun _ => w.2⟩

section Digits

variable {n : Nat}

theorem digit_eq : ∀ d < 10, digit d = Nat.digitChar d := by decide

theorem toDigits_snoc (big : 10 ≤ n) : Nat.toDigits 10 n = Nat.toDigits 10 (n / 10) ++ [Nat.digitChar (n % 10)] := by
  have joined := Nat.toDigits_append_toDigits (b := 10) (n := n / 10) (d := n % 10) (by decide) (by omega)
    (Nat.mod_lt _ (by decide))
  rw [Nat.toDigits_of_lt_base (Nat.mod_lt _ (by decide)),Nat.div_add_mod] at joined
  exact joined.symm

-- By strong induction on n.
theorem length_toDigits_le_iff {e : Nat} (pos : 0 < e) : (Nat.toDigits 10 n).length ≤ e ↔ n < 10 ^ e := by
  induction n using Nat.strong_induction_on generalizing e with
  | _ n ih =>
    by_cases small : n < 10
    · rw [Nat.toDigits_of_lt_base small,List.length_singleton]
      have : 10 ≤ 10 ^ e := Nat.le_self_pow (by omega) 10
      omega
    · rw [toDigits_snoc (by omega),List.length_append,List.length_singleton]
      obtain ⟨e,rfl⟩ : ∃ e', e = e' + 1 := ⟨e - 1,by omega⟩
      rw [Nat.pow_succ]
      by_cases zero : e = 0
      · subst zero
        have pos := List.length_pos_of_ne_nil (Nat.toDigits_ne_nil (n := n / 10) (b := 10))
        rw [Nat.pow_zero,Nat.one_mul]
        omega
      · rw [Nat.add_le_add_iff_right,ih (n / 10) (by omega) (by omega),Nat.div_lt_iff_lt_mul (by decide)]

theorem length_toDigits_le_succ : (Nat.toDigits 10 n).length ≤ n + 1 :=
  (length_toDigits_le_iff (by omega)).mpr (Nat.lt_pow_self (by decide) |>.trans (Nat.pow_lt_pow_right (by decide) (by omega)))

theorem itoaSkip_eq : ∀ {fuel n : Nat}, (Nat.toDigits 10 n).length ≤ fuel → itoaSkip fuel n = (Nat.toDigits 10 n).length
  | 0,n,enough => absurd (List.length_pos_of_ne_nil (Nat.toDigits_ne_nil (n := n) (b := 10))) (by omega)
  | fuel + 1,n,enough => by
    unfold itoaSkip
    split
    · rw [Nat.toDigits_of_lt_base (by omega),List.length_singleton]
    · rename_i more
      have digits := toDigits_snoc (n := n) (by omega)
      rw [digits,List.length_append,List.length_singleton] at enough ⊢
      rw [itoaSkip_eq (by omega)]

theorem itoaDigits_eq : ∀ {fuel p n : Nat}, (Nat.toDigits 10 n).length ≤ fuel →
    itoaDigits fuel p n = (Nat.toDigits 10 n).reverse.zipIdx.map fun x => (p - 1 - x.2,x.1)
  | 0,p,n,enough => absurd (List.length_pos_of_ne_nil (Nat.toDigits_ne_nil (n := n) (b := 10))) (by omega)
  | fuel + 1,p,n,enough => by
    unfold itoaDigits
    split
    · rename_i last
      rw [Nat.toDigits_of_lt_base (by omega),digit_eq _ (Nat.mod_lt _ (by decide)),Nat.mod_eq_of_lt (by omega)]
      rfl
    · rename_i more
      have digits := toDigits_snoc (n := n) (by omega)
      rw [digits,List.length_append,List.length_singleton] at enough
      rw [itoaDigits_eq (by omega),digits,List.reverse_append,List.reverse_singleton,List.singleton_append,
        List.zipIdx_cons,List.map_cons,List.zipIdx_succ,List.map_map,digit_eq _ (Nat.mod_lt _ (by decide))]
      congr 2
      funext x
      simp only [Function.comp_apply,Prod.mk.injEq,and_true]
      omega

end Digits

section Stores

variable {n : Nat} {w : Nat × Char}

theorem itoa_nat (n : Nat) : itoa n =
    ((Nat.toDigits 10 n).length,'\x00') ::
      (Nat.toDigits 10 n).reverse.zipIdx.map fun x => ((Nat.toDigits 10 n).length - 1 - x.2,x.1) := by
  simp only [itoa,Int.natCast_nonneg,Int.not_lt.mpr,if_false,List.length_nil,Nat.zero_add,Int.natAbs_natCast,
    List.nil_append,itoaSkip_eq length_toDigits_le_succ,itoaDigits_eq length_toDigits_le_succ]

theorem mem_itoa : w ∈ itoa n ↔ (Nat.toDigits 10 n ++ ['\x00'])[w.1]? = some w.2 := by
  obtain ⟨o,c⟩ := w
  rw [itoa_nat,List.mem_cons,List.mem_map]
  constructor
  · rintro (same | ⟨⟨d,j⟩,mem,same⟩)
    · obtain ⟨rfl,rfl⟩ := Prod.mk.inj same
      simp
    · rw [List.mem_zipIdx_iff_getElem?] at mem
      have inside : j < (Nat.toDigits 10 n).length := by simpa using (List.getElem?_eq_some_iff.mp mem).1
      rw [List.getElem?_reverse inside] at mem
      obtain ⟨rfl,rfl⟩ := Prod.mk.inj same
      rw [List.getElem?_append_left (by omega)]
      exact mem
  · intro spot
    by_cases inside : o < (Nat.toDigits 10 n).length
    · refine .inr ⟨⟨c,(Nat.toDigits 10 n).length - 1 - o⟩,?_,?_⟩
      · rw [List.mem_zipIdx_iff_getElem?,List.getElem?_reverse (by omega),
          show (Nat.toDigits 10 n).length - 1 - ((Nat.toDigits 10 n).length - 1 - o) = o by omega]
        rwa [List.getElem?_append_left inside] at spot
      · simp only [Prod.mk.injEq,and_true]
        omega
    · rw [List.getElem?_append_right (by omega),List.getElem?_singleton] at spot
      split at spot
      · cases spot
        refine .inl (Prod.ext ?_ rfl)
        dsimp only
        omega
      · cases spot

theorem stores_read {ws : List (Nat × Char)} {s : List Char} (mem : ∀ w, w ∈ ws ↔ s[w.1]? = some w.2)
    (b : Nat → Char) (k : Nat) : apply (stores ws) b k = s.getD k (b k) := by
  have reads : ReadsOnly (fun _ => False) (stores ws) := by
    intro v stored
    obtain ⟨w,-,rfl⟩ := List.mem_map.mp stored
    exact ⟨id,fun _ _ _ => rfl⟩
  by_cases inside : k < s.length
  · rw [List.getD_eq_getElem _ _ inside]
    apply apply_uniform reads
    · exact ⟨⟨k,fun _ => s[k]⟩,List.mem_map.mpr ⟨(k,s[k]),(mem _).mpr (List.getElem?_eq_getElem inside),rfl⟩,rfl⟩
    · intro v stored same
      obtain ⟨⟨o,c⟩,there,rfl⟩ := List.mem_map.mp stored
      dsimp only at same ⊢
      subst same
      have spot := (mem _).mp there
      rw [List.getElem?_eq_getElem inside] at spot
      exact (Option.some.inj spot).symm
  · rw [List.getD_eq_default _ _ (by omega)]
    apply apply_other
    intro v stored same
    obtain ⟨⟨o,c⟩,there,rfl⟩ := List.mem_map.mp stored
    have spot := (mem _).mp there
    dsimp only at same spot
    subst same
    exact inside (List.getElem?_eq_some_iff.mp spot).1

theorem itoa_contents (n : Nat) (b : Nat → Char) (k : Nat) :
    apply (stores (itoa n)) b k = (Nat.toDigits 10 n ++ ['\x00']).getD k (b k) :=
  stores_read (fun _ => mem_itoa) b k

theorem swapPath_eq (n : Nat) : swapPath n = "/.swap".toList ++ Nat.toDigits 10 n := by
  simp [swapPath,String.toList_append]

theorem mem_swapPathStores : w ∈ swapPathStores n ↔ (swapPath n ++ ['\x00'])[w.1]? = some w.2 := by
  obtain ⟨o,c⟩ := w
  have six : "/.swap".toList.length = 6 := by decide
  rw [swapPathStores,List.mem_append,swapPath_eq,List.append_assoc,List.getElem?_append,six]
  constructor
  · rintro (moved | shifted)
    · obtain ⟨⟨d,j⟩,mem,same⟩ := List.mem_map.mp moved
      rw [List.mem_zipIdx_iff_getElem?] at mem
      obtain ⟨rfl,rfl⟩ := Prod.mk.inj same
      have inside : j < 6 := six ▸ (List.getElem?_eq_some_iff.mp mem).1
      rw [if_pos inside]
      exact mem
    · obtain ⟨⟨q,d⟩,mem,same⟩ := List.mem_map.mp shifted
      obtain ⟨rfl,rfl⟩ := Prod.mk.inj same
      rw [if_neg (by omega),show 6 + q - 6 = q by omega]
      exact mem_itoa.mp mem
  · intro spot
    split at spot
    · exact .inl (List.mem_map.mpr ⟨(c,o),List.mem_zipIdx_iff_getElem?.mpr spot,rfl⟩)
    · refine .inr (List.mem_map.mpr ⟨(o - 6,c),mem_itoa.mpr spot,?_⟩)
      dsimp only
      rw [Nat.add_sub_cancel' (by omega)]

theorem length_swapPath (n : Nat) : (swapPath n).length = 6 + (Nat.toDigits 10 n).length := by
  rw [swapPath_eq,List.length_append]
  rfl

theorem swapPathStores_fit_iff (n : Nat) : (∀ w ∈ swapPathStores n, w.1 < DIGITS) ↔ n < 10 ^ 7 := by
  rw [← length_toDigits_le_iff (by decide)]
  constructor
  · intro fits
    have last := fits ((swapPath n).length,'\x00') (mem_swapPathStores.mpr (by simp))
    rw [length_swapPath] at last
    unfold DIGITS at last
    omega
  · intro short w mem
    have inside := (List.getElem?_eq_some_iff.mp (mem_swapPathStores.mp mem)).1
    rw [List.length_append,length_swapPath,List.length_singleton] at inside
    unfold DIGITS
    omega

end Stores

section Names

variable {n : Nat}

theorem mem_toDigits {c : Char} (mem : c ∈ Nat.toDigits 10 n) : ∃ d < 10, c = Nat.digitChar d := by
  induction n using Nat.strong_induction_on with
  | _ n ih =>
    by_cases small : n < 10
    · rw [Nat.toDigits_of_lt_base small,List.mem_singleton] at mem
      exact ⟨n,small,mem⟩
    · rw [toDigits_snoc (by omega),List.mem_append,List.mem_singleton] at mem
      rcases mem with earlier | rfl
      · exact ih (n / 10) (by omega) earlier
      · exact ⟨n % 10,Nat.mod_lt _ (by decide),rfl⟩

theorem toDigits_plain : ∀ c ∈ Nat.toDigits 10 n, c ≠ '/' := by
  intro c mem
  obtain ⟨d,small,rfl⟩ := mem_toDigits mem
  have digits : ∀ d < 10, Nat.digitChar d ≠ '/' := by decide
  exact digits d small

theorem elements_swapPath (n : Nat) :
    elements (swapPath n) = [String.ofList ((".swap".toList ++ Nat.toDigits 10 n).take DIRSIZ)] := by
  have dots : ∀ c ∈ ".swap".toList, c ≠ '/' := by simp
  have plain : ∀ c ∈ ".swap".toList ++ Nat.toDigits 10 n, c ≠ '/' := by
    intro c mem
    rcases List.mem_append.mp mem with dot | digits
    · exact dots c dot
    · exact toDigits_plain c digits
  have whole : swapPath n = '/' :: ((".swap".toList ++ Nat.toDigits 10 n) ++ []) := by
    rw [swapPath_eq,List.append_nil]
    rfl
  rw [elements_components,whole,components_slash,components_run (by simp) plain (.inl rfl),components_nil]
  rfl

theorem swapPath_names_inj {m : Nat} (small : m < 10 ^ 9) (small' : n < 10 ^ 9)
    (same : elements (swapPath m) = elements (swapPath n)) : m = n := by
  have fits : ∀ k, k < 10 ^ 9 → (".swap".toList ++ Nat.toDigits 10 k).take DIRSIZ = ".swap".toList ++ Nat.toDigits 10 k := by
    intro k below
    apply List.take_of_length_le
    have := (length_toDigits_le_iff (n := k) (e := 9) (by decide)).mpr below
    rw [List.length_append]
    unfold DIRSIZ
    exact Nat.add_le_add_left this 5
  rw [elements_swapPath,elements_swapPath,fits m small,fits n small',List.cons.injEq,String.ofList_inj] at same
  have digits := congrArg (fun ds => Nat.ofDigitChars 10 ds 0) (List.append_cancel_left same.1)
  simpa only [Nat.ofDigitChars_toDigits (by decide : 1 < 10) (by decide : 10 ≤ 10)] using digits

theorem swapPath_names_collide {m d d' : Nat} (big : 10 ^ 8 ≤ m) (digit : d < 10) (digit' : d' < 10) :
    elements (swapPath (10 * m + d)) = elements (swapPath (10 * m + d')) := by
  have cut : ∀ e, e < 10 → (".swap".toList ++ Nat.toDigits 10 (10 * m + e)).take DIRSIZ =
      (".swap".toList ++ Nat.toDigits 10 m).take DIRSIZ := by
    intro e small
    have long : DIRSIZ ≤ (".swap".toList ++ Nat.toDigits 10 m).length := by
      have := (length_toDigits_le_iff (n := m) (e := 8) (by decide)).not.mpr (by omega)
      rw [List.length_append]
      unfold DIRSIZ
      change 14 ≤ 5 + _
      omega
    rw [toDigits_snoc (by omega),show (10 * m + e) / 10 = m by omega,← List.append_assoc,
      List.take_append_of_le_length long]
  rw [elements_swapPath,elements_swapPath,cut d digit,cut d' digit']

-- namex reads a path only through its first byte and its elements.
theorem namex_congr {cwd : Nat} {path path' : List Char} (head : path.head? = path'.head?)
    (same : elements path = elements path') (nameiparent : Bool) :
    namex cwd path nameiparent = namex cwd path' nameiparent := by
  unfold namex
  rw [head,same]

end Names

theorem swap_path_overflows_and_names_collide :
    (∀ (pid : Nat) (b : Nat → Char) (k : Nat),
      apply (stores (itoa pid)) b k = (Nat.toDigits 10 pid ++ ['\x00']).getD k (b k)) ∧
    (∀ pid : Nat, (∀ w ∈ swapPathStores pid, w.1 < DIGITS) ↔ pid < 10 ^ 7) ∧
    (∀ pid pid' : Nat, pid < 10 ^ 9 → pid' < 10 ^ 9 → elements (swapPath pid) = elements (swapPath pid') → pid = pid') ∧
    (10 ^ 9 + 1 ≤ 2 ^ 31 - 1 ∧ (DIGITS,'\x00') ∈ swapPathStores (10 ^ 7) ∧
      ∀ cwd : Nat, (∀ type, create cwd (swapPath (10 ^ 9)) type = create cwd (swapPath (10 ^ 9 + 1)) type) ∧
        unlinkPath cwd (swapPath (10 ^ 9)) = unlinkPath cwd (swapPath (10 ^ 9 + 1))) := by
  have head : (swapPath (10 ^ 9)).head? = (swapPath (10 ^ 9 + 1)).head? := by
    have slash : "/.swap".toList = '/' :: ".swap".toList := by decide
    rw [swapPath_eq,swapPath_eq,slash,List.cons_append,List.cons_append,List.head?_cons,List.head?_cons]
  have same : elements (swapPath (10 ^ 9)) = elements (swapPath (10 ^ 9 + 1)) := by
    rw [show (10 : Nat) ^ 9 = 10 * 10 ^ 8 + 0 by norm_num]
    exact swapPath_names_collide (Nat.le_refl _) (by decide) (by decide)
  have full : (swapPath (10 ^ 7)).length = DIGITS := by
    rw [length_swapPath]
    decide
  refine ⟨itoa_contents,swapPathStores_fit_iff,fun pid pid' small small' => swapPath_names_inj small small',
    by norm_num,mem_swapPathStores.mpr ?_,fun cwd => ⟨fun type => ?_,?_⟩⟩
  · rw [← full]
    simp
  · unfold create nameiparent
    rw [namex_congr head same]
  · unfold unlinkPath nameiparent
    rw [namex_congr head same]

end Tree

end Xv6
