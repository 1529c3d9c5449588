import Mathlib.Data.List.TakeWhile
import Xv6.Fs.Tree

namespace Xv6

namespace Tree

open Frame

-- The components of a path: its maximal non-empty runs of characters other than '/'.
def components (path : List Char) : List (List Char) := (path.splitOn '/').filter fun r => !r.isEmpty

@[simp] theorem components_nil : components [] = [] := rfl

example : components ['/','/','a','/','/','b','c','/'] = [['a'],['b','c']] := by decide

theorem components_slash (path : List Char) : components ('/' :: path) = components path := by
  have split := @List.splitOnP_append_cons Char (fun c => c == '/') [] path '/' (by decide)
  simp only [List.nil_append] at split
  simp [components,List.splitOn,split]

theorem components_dropSlashes (path : List Char) : components (path.dropWhile (· = '/')) = components path := by
  induction path with
  | nil => rfl
  | cons c path ih =>
    by_cases slash : c = '/'
    · subst slash
      rw [components_slash,← ih]
      simp
    · simp [slash]

theorem components_run {run rest : List Char} (named : run ≠ []) (plain : ∀ c ∈ run, c ≠ '/')
    (sep : rest = [] ∨ ∃ more, rest = '/' :: more) : components (run ++ rest) = run :: components rest := by
  have alone : run.splitOn '/' = [run] := List.splitOnP_eq_singleton fun c mem => by simpa using plain c mem
  have kept : (!run.isEmpty) = true := by simpa using named
  rcases sep with rfl | ⟨more,rfl⟩
  · simp [components,alone,kept]
  · have split := @List.splitOnP_append_cons Char (fun c => c == '/') run more '/' (by decide)
    rw [components_slash]
    simp only [components,List.splitOn,split]
    simp only [List.splitOn] at alone
    simp [alone,kept]

theorem skipelem_components {path rest : List Char} {name : String} (taken : skipelem path = some (name,rest)) :
    ∃ run, name = String.ofList (run.take DIRSIZ) ∧ components path = run :: components rest := by
  unfold skipelem at taken
  split at taken
  · cases taken
  · rename_i c cs stripped
    simp only [Option.some.injEq,Prod.mk.injEq] at taken
    obtain ⟨rfl,rfl⟩ := taken
    have first : c ≠ '/' := by
      have := List.head_dropWhile_not (· = '/') (l := path) (by simp [stripped])
      simpa [stripped] using this
    refine ⟨(c :: cs).takeWhile (· ≠ '/'),rfl,?_⟩
    have whole := (List.takeWhile_append_dropWhile (p := fun x => decide (x ≠ '/')) (l := c :: cs)).symm
    have sep : (c :: cs).dropWhile (· ≠ '/') = [] ∨ ∃ more, (c :: cs).dropWhile (· ≠ '/') = '/' :: more := by
      cases after : (c :: cs).dropWhile (· ≠ '/') with
      | nil => exact .inl rfl
      | cons d more =>
        have := List.head_dropWhile_not (fun x => decide (x ≠ '/')) (l := c :: cs)
          (by rw [after]; exact List.cons_ne_nil _ _)
        simp only [after,List.head_cons,decide_eq_false_iff_not,not_not] at this
        exact .inr ⟨more,by rw [this]⟩
    have named : (c :: cs).takeWhile (· ≠ '/') ≠ [] := by simp [first]
    have plain : ∀ d ∈ (c :: cs).takeWhile (· ≠ '/'), d ≠ '/' := fun d mem => by
      simpa using List.mem_takeWhile_imp mem
    rw [← components_dropSlashes path,stripped]
    conv_lhs => rw [whole]
    rw [components_run named plain sep,components_dropSlashes]

theorem skipelem_none_components {path : List Char} (empty : skipelem path = none) : components path = [] := by
  unfold skipelem at empty
  split at empty
  · rename_i stripped
    rw [← components_dropSlashes path,stripped,components_nil]
  · cases empty

theorem head_dropSlashes (path : List Char) : (path.dropWhile (· = '/')).head? ≠ some '/' := by
  induction path with
  | nil => simp
  | cons c path ih =>
    by_cases slash : c = '/'
    · subst slash
      simpa using ih
    · simp [slash]

theorem skipelem_rest_head {path rest : List Char} {name : String} (taken : skipelem path = some (name,rest)) :
    rest.head? ≠ some '/' := by
  unfold skipelem at taken
  split at taken
  · cases taken
  · simp only [Option.some.injEq,Prod.mk.injEq] at taken
    rw [← taken.2]
    exact head_dropSlashes _

theorem elements_components (path : List Char) :
    elements path = (components path).map fun run => String.ofList (run.take DIRSIZ) := by
  induction path using elements.induct with
  | case1 path empty => rw [elements_of_empty empty,skipelem_none_components empty,List.map_nil]
  | case2 path name rest taken ih =>
    obtain ⟨run,named,split⟩ := skipelem_components taken
    rw [elements_of_skipelem taken,ih,split,List.map_cons,named]

-- memmove(name, s, DIRSIZ) when s is that long, else memmove(name, s, len) and name[len] = 0.
def copyName (s name : List Char) : List Char :=
  if s.length ≥ DIRSIZ then s.take DIRSIZ ++ name.drop DIRSIZ
  else s ++ '\x00' :: name.drop (s.length + 1)

def skipelemName (path name : List Char) : List Char :=
  copyName ((path.dropWhile (· = '/')).takeWhile (· ≠ '/')) name

def cname (name : List Char) : List Char := (name.take DIRSIZ).takeWhile (· ≠ '\x00')

section Name

variable {s path rest buf : List Char} {name : String}

theorem copyName_length (size : buf.length = DIRSIZ) : (copyName s buf).length = DIRSIZ := by
  unfold copyName
  split
  · rw [List.length_append,List.length_take,List.length_drop,size]
    omega
  · rw [List.length_append,List.length_cons,List.length_drop,size]
    omega

theorem cname_copyName (size : buf.length = DIRSIZ) (clean : '\x00' ∉ s) : cname (copyName s buf) = s.take DIRSIZ := by
  have plain : ∀ c ∈ s, decide (c ≠ '\x00') = true := fun c mem => decide_eq_true fun same => clean (same ▸ mem)
  unfold copyName cname
  split
  · rename_i long
    rw [List.drop_of_length_le (by omega),List.append_nil,List.take_take,Nat.min_self]
    exact List.takeWhile_eq_self_iff.mpr fun c mem => plain c (List.mem_of_mem_take mem)
  · rename_i short
    obtain ⟨k,room⟩ : ∃ k, DIRSIZ - s.length = k + 1 := ⟨DIRSIZ - s.length - 1,by omega⟩
    rw [List.take_append,List.take_of_length_le (by omega),room,List.take_succ_cons,
      List.takeWhile_append_of_pos plain]
    simp

theorem copyName_nul (short : s.length < DIRSIZ) : (copyName s buf)[s.length]? = some '\x00' := by
  unfold copyName
  rw [if_neg (by omega)]
  simp

theorem skipelem_name (taken : skipelem path = some (name,rest)) :
    name.toList = ((path.dropWhile (· = '/')).takeWhile (· ≠ '/')).take DIRSIZ := by
  unfold skipelem at taken
  split at taken
  · cases taken
  · rename_i c cs stripped
    simp only [Option.some.injEq,Prod.mk.injEq] at taken
    rw [← taken.1,String.toList_ofList,stripped]

theorem cname_skipelemName (size : buf.length = DIRSIZ) (clean : '\x00' ∉ path)
    (taken : skipelem path = some (name,rest)) : cname (skipelemName path buf) = name.toList := by
  have inside : ∀ c ∈ (path.dropWhile (· = '/')).takeWhile (· ≠ '/'), c ∈ path :=
    fun c mem => (List.dropWhile_suffix _).subset ((List.takeWhile_sublist _).subset mem)
  rw [skipelem_name taken]
  exact cname_copyName size fun mem => clean (inside _ mem)

theorem skipelemName_nul (taken : skipelem path = some (name,rest)) (short : name.toList.length < DIRSIZ) :
    (skipelemName path buf)[name.toList.length]? = some '\x00' := by
  have below : ((path.dropWhile (· = '/')).takeWhile (· ≠ '/')).length < DIRSIZ := by
    rw [skipelem_name taken,List.length_take] at short
    omega
  rw [skipelem_name taken,List.length_take,Nat.min_eq_right (Nat.le_of_lt below)]
  exact copyName_nul below

end Name

-- One turn of namex's loop that does not stop early.
def namexStep (ip : Nat) (name : String) : TM (Option Nat) := do
  ilock ip
  if ((← get).inode ip).type ≠ .T_DIR then
    iput ip
    return none
  match ← dirlookup ip name with
  | none =>
    iput ip
    return none
  | some (next,_) =>
    iput ip
    return some next

theorem namexLoop_cons {nameiparent : Bool} {ip : Nat} {name : String} {rest : List String}
    (going : (nameiparent && rest.isEmpty) = false) :
    namexLoop nameiparent ip (name :: rest) = (do
      match ← namexStep ip name with
      | none => return none
      | some next => namexLoop nameiparent next rest) := by
  simp only [namexLoop,namexStep,bind_assoc,going,Bool.false_eq_true,if_false]
  congr 1
  funext u
  congr 1
  funext st
  -- the two sides part only after the directory check and the lookup
  by_cases dir : (st.inode ip).type = .T_DIR
  · simp only [dir,ne_eq,not_true_eq_false,if_false,bind_assoc]
    congr 1
    funext found
    rcases found with _ | ⟨next,off⟩ <;> simp
  · simp [dir]

theorem namexLoop_parent (ip : Nat) (init : List String) (last : String) :
    namexLoop true ip (init ++ [last]) = (do
      match ← namexLoop false ip init with
      | none => return none
      | some (dp,_) => namexLoop true dp [last]) := by
  induction init generalizing ip with
  | nil => simp [namexLoop]
  | cons name init ih =>
    rw [List.cons_append,namexLoop_cons (by simp),namexLoop_cons rfl,bind_assoc]
    congr 1
    funext next
    rcases next with _ | next
    · simp
    · simp [ih]

theorem skipelem_splits_components (path : List Char) :
    elements path = (components path).map (fun run => String.ofList (run.take DIRSIZ)) ∧
    (∀ name rest, skipelem path = some (name,rest) →
      rest.length < path.length ∧ rest.head? ≠ some '/' ∧ elements path = name :: elements rest) ∧
    (∀ buf : List Char, buf.length = DIRSIZ → '\x00' ∉ path → ∀ name rest, skipelem path = some (name,rest) →
      (skipelemName path buf).length = DIRSIZ ∧ cname (skipelemName path buf) = name.toList ∧
      (name.toList.length < DIRSIZ → (skipelemName path buf)[name.toList.length]? = some '\x00')) ∧
    (∀ cwd init last, elements path = init ++ [last] →
      nameiparent cwd path = (do
        idup (if path.head? = some '/' then ROOTINO else cwd)
        match ← namexLoop false (if path.head? = some '/' then ROOTINO else cwd) init with
        | none => return none
        | some (dp,_) => namexLoop true dp [last]) ∧
      ∀ dp (s : FsTree), 1 ≤ (s.inode dp).ref → (s.inode dp).type = .T_DIR →
        namexLoop true dp [last] s = .ok (some (dp,last),s)) := by
  refine ⟨elements_components path,fun name rest taken => ?_,fun buf size clean name rest taken => ?_,
    fun cwd init last split => ⟨?_,fun dp s referenced dir => namexLoop_last_parent referenced dir⟩⟩
  · exact ⟨skipelem_shorter taken,skipelem_rest_head taken,elements_of_skipelem taken⟩
  · exact ⟨copyName_length size,cname_skipelemName size clean taken,skipelemName_nul taken⟩
  · show namex cwd path true = _
    rw [namex,split,namexLoop_parent]

end Tree

end Xv6
