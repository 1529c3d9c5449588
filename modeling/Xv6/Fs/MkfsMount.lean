import Xv6.Fs.MkfsRun
import Xv6.Fs.Mount

namespace Xv6

namespace Mkfs

open Disk Endian Block Frame

-- The kernel on the image mkfs writes: fsinit, namei through the root's
-- dirents, ilock and readi of each file, and balloc on its bitmap.

section Names

variable {s t t' : Nat → UInt8}

theorem strncmpEq_congr {n k : Nat} (agree : ∀ i, k ≤ i → i < k + n → t i = t' i) :
    strncmpEq s t n k = strncmpEq s t' n k := by
  induction n generalizing k with
  | zero => rfl
  | succ n ih =>
    have first := agree k le_rfl (by omega)
    have rest := ih (k := k + 1) fun i lo hi => agree i (by omega) (by omega)
    simp only [strncmpEq,first,rest]

theorem strncmpEq_succ {n k : Nat} :
    strncmpEq s t n (k + 1) = strncmpEq (fun i => s (i + 1)) (fun i => t (i + 1)) n k := by
  induction n generalizing k with
  | zero => rfl
  | succ n ih => simp only [strncmpEq,ih]

-- On the NUL-padded bytes of two names without NUL, strncmp compares their first n bytes.
theorem strncmpEq_pad {p q : List UInt8} (hp : 0 ∉ p) (hq : 0 ∉ q) (n : Nat) :
    strncmpEq (p.getD · 0) (q.getD · 0) n 0 = decide (p.take n = q.take n) := by
  induction n generalizing p q with
  | zero => simp [strncmpEq]
  | succ n ih =>
    rw [strncmpEq,strncmpEq_succ]
    cases p with
    | nil =>
      cases q with
      | nil => simp
      | cons b q =>
        have hb : b ≠ 0 := fun zero => hq (zero ▸ List.mem_cons_self)
        simp [Ne.symm hb]
    | cons a p =>
      have ha : a ≠ 0 := fun zero => hp (zero ▸ List.mem_cons_self)
      cases q with
      | nil => simp [ha]
      | cons b q =>
        have rest := ih (List.not_mem_of_not_mem_cons hp) (List.not_mem_of_not_mem_cons hq)
        simp only [List.getD_cons_succ,List.getD_cons_zero,rest,List.take_succ_cons,List.cons.injEq]
        by_cases same : a = b
        · subst same
          simp [ha]
        · simp [same]

theorem namecmp_pad {p q : List UInt8} (hp : 0 ∉ p) (hq : 0 ∉ q) :
    namecmp (p.getD · 0) (q.getD · 0) = decide (p.take DIRSIZ = q.take DIRSIZ) :=
  strncmpEq_pad hp hq DIRSIZ

theorem dirent_fields {de : Nat → UInt8} {inum : Nat} {nm name : List UInt8}
    (bytes : ∀ i < 16, de i = direntBytes inum nm i) (small : inum < 2 ^ 16) (hn : 0 ∉ nm) (hq : 0 ∉ name) :
    get de 0 2 = inum ∧ namecmp (name.getD · 0) (fun j => de (2 + j)) = decide (name.take DIRSIZ = nm.take DIRSIZ) := by
  constructor
  · have field : get de 0 2 = get (set (fun _ => 0) 0 2 inum) 0 2 :=
      get_congr fun k below => by rw [bytes _ (by omega),direntBytes,Bytes.put_outside (by omega)]
    rw [field,get_set_small _ _ _ (by simpa using small)]
  · have named : namecmp (name.getD · 0) (fun j => de (2 + j)) = namecmp (name.getD · 0) (nm.getD · 0) :=
      strncmpEq_congr fun i _ below => by
        rw [bytes _ (by simp only [DIRSIZ] at below; omega),direntBytes,Bytes.put_inside (by omega) (by omega),
          Nat.add_sub_cancel_left]
    rw [named,namecmp_pad hq hn]

end Names

section Lookup

variable {img : Image} {din : Dinode} {bytes : List UInt8}

theorem ilock_view {din₀ : Dinode} {inum : Nat}
    (loaded : Dinode.load (img (IBLOCK inum sb)) (inum % Tree.IPB * 64) = din) (typed : din.type ≠ 0) :
    Disk.ilock sb inum (view sb img din₀) = .ok (din,view sb img din) := by
  simp only [Disk.ilock,get_bind]
  rw [show (view sb img din₀).data = img from rfl,loaded,if_neg typed,modify_bind]
  rfl

-- readi below the end of what an inode holds, its size possibly rounded up as mkfs rounds the root's.
theorem Holds.readi {size off n : Nat} (holds : Holds img din bytes) (sized : din.size ≤ size)
    (within : off + n ≤ bytes.length) :
    Block.readi off n (view sb img {din with size := size}) =
      .ok ((n,Bytes.put (fun _ => 0) 0 n fun j => bytes.getD (off + j) 0),view sb img {din with size := size}) := by
  have length := holds.size
  have wide := holds.fits.size
  have clip : min n ((view sb img {din with size := size}).size - off) = n := by
    show min n (size - off) = n
    omega
  rw [Block.readi_mapped (show off ≤ size by omega) (by omega) ?mapped,clip]
  · congr 3
    exact Bytes.put_congr _ _ _ fun j below => holds.data _ (by omega)
  · intro i below
    rw [clip] at below
    exact holds.held _ (block_below (show i < bytes.length by omega))

structure Lists (t : Block.Store) (es : List (Nat × List UInt8)) : Prop where
  sized : 16 * es.length ≤ t.size
  reads : ∀ k (entry : k < es.length), ∃ de, Block.readi (16 * k) 16 t = .ok ((16,de),t) ∧
    ∀ i < 16, de i = direntBytes es[k].1 es[k].2 i

theorem Holds.lists {es : List (Nat × List UInt8)} {size : Nat} (holds : Holds img din (dirents es))
    (sized : din.size ≤ size) : Lists (view sb img {din with size := size}) es := by
  have length := holds.size
  rw [length_dirents] at length
  refine ⟨show 16 * es.length ≤ size by omega,fun k entry => ⟨_,holds.readi sized ?_,fun i below => ?_⟩⟩
  · rw [length_dirents]
    omega
  · rw [Bytes.put_inside (Nat.zero_le _) (by omega),Nat.sub_zero,dirents_getD entry below]
    rfl

theorem dirlookupLoop_first {t : Block.Store} {es : List (Nat × List UInt8)} {name : List UInt8} {k₀ : Nat}
    (lists : Lists t es) (clean : 0 ∉ name) (valid : ∀ e ∈ es, e.1 < 2 ^ 16 ∧ 0 ∉ e.2) (found : k₀ < es.length)
    (hit : es[k₀].1 ≠ 0 ∧ name.take DIRSIZ = es[k₀].2.take DIRSIZ)
    (first : ∀ k (below : k < k₀), name.take DIRSIZ ≠ es[k].2.take DIRSIZ) :
    ∀ fuel k, k ≤ k₀ → k₀ - k < fuel → dirlookupLoop name fuel (16 * k) t = .ok (some es[k₀].1,t) := by
  intro fuel
  induction fuel with
  | zero => intro k _ bound; omega
  | succ fuel ih =>
    intro k upto bound
    have entry : k < es.length := by omega
    obtain ⟨de,read,bytes⟩ := lists.reads k entry
    obtain ⟨small,named⟩ := valid _ (List.getElem_mem entry)
    obtain ⟨inum,cmp⟩ := dirent_fields bytes small named clean
    have inside : 16 * k < t.size := by have := lists.sized; omega
    simp only [dirlookupLoop,get_bind,inside,if_true]
    rw [bind_of_ok read]
    simp only [ne_eq,not_true_eq_false,if_false,inum,cmp]
    by_cases last : k = k₀
    · subst last
      simp [hit]
    · -- an earlier entry: its name differs, and the loop goes on at the next
      have miss := first k (by omega)
      simp only [miss,decide_false,Bool.and_false,Bool.false_eq_true,if_false]
      rw [show 16 * k + 16 = 16 * (k + 1) by omega]
      exact ih (k + 1) (by omega) (by omega)

theorem skipelem_name {name : List UInt8} (named : name ≠ []) (plain : 0x2F ∉ name) :
    skipelem (0x2F :: name) = some (name.take DIRSIZ,[]) := by
  have other : ∀ c ∈ name, (c != 0x2F) = true := by
    intro c mem
    have slash : c ≠ 0x2F := fun same => plain (same ▸ mem)
    simpa using slash
  have start : (0x2F :: name).dropWhile (· == 0x2F) = name := by
    rw [List.dropWhile_cons_of_pos (by decide),List.dropWhile_eq_self_iff]
    intro nonempty
    simpa using other _ (List.getElem_mem nonempty)
  have whole : name.takeWhile (· != 0x2F) = name := List.takeWhile_eq_self_iff.mpr other
  have rest : name.dropWhile (· != 0x2F) = [] := List.dropWhile_eq_nil_iff.mpr other
  simp only [skipelem,start,named,if_false,whole,rest,List.dropWhile_nil]

theorem namex_nil (ip : Nat) : namex sb [] ip = pure (some ip) := by
  rw [namex]
  split
  · rfl
  · rename_i split
    simp [skipelem] at split

theorem namex_elem {path name rest : List UInt8} {ip : Nat} (split : skipelem path = some (name,rest)) :
    namex sb path ip = (do
      let din ← Disk.ilock sb ip
      if din.type ≠ InodeType.T_DIR.code then return none
      match ← Disk.dirlookup din.type name with
      | none => return none
      | some next => namex sb rest next) := by
  rw [namex]
  split
  · rename_i none
    rw [split] at none
    cases none
  · rename_i element after found
    rw [split] at found
    cases found
    rfl

theorem namei_root {din₀ droot : Dinode} {es : List (Nat × List UInt8)} {name : List UInt8} {k₀ : Nat} (cwd : Nat)
    (root : Dinode.load (img (IBLOCK ROOTINO sb)) (ROOTINO % Tree.IPB * 64) = droot)
    (dir : droot.type = InodeType.T_DIR.code) (lists : Lists (view sb img droot) es)
    (named : name ≠ []) (plain : 0x2F ∉ name) (clean : 0 ∉ name) (valid : ∀ e ∈ es, e.1 < 2 ^ 16 ∧ 0 ∉ e.2)
    (found : k₀ < es.length) (hit : es[k₀].1 ≠ 0 ∧ name.take DIRSIZ = es[k₀].2.take DIRSIZ)
    (first : ∀ k (below : k < k₀), name.take DIRSIZ ≠ es[k].2.take DIRSIZ) :
    Disk.namei sb cwd (0x2F :: name) (view sb img din₀) = .ok (some es[k₀].1,view sb img droot) := by
  have twice : (name.take DIRSIZ).take DIRSIZ = name.take DIRSIZ := by simp
  have lock : Disk.ilock sb ROOTINO (view sb img din₀) = .ok (droot,view sb img droot) :=
    ilock_view root (by rw [dir]; decide)
  have loop := dirlookupLoop_first lists (fun mem => clean (List.mem_of_mem_take mem)) valid found
    (by rw [twice]; exact hit) (fun k below => by rw [twice]; exact first k below)
    ((view sb img droot).size / 16 + 1) 0 (Nat.zero_le _) (by have := lists.sized; omega)
  rw [Nat.mul_zero] at loop
  have look : Disk.dirlookup droot.type (name.take DIRSIZ) (view sb img droot) = .ok (some es[k₀].1,view sb img droot) := by
    simp only [Disk.dirlookup,dir,ne_eq,not_true_eq_false,if_false,get_bind]
    exact loop
  rw [Disk.namei,List.head?_cons,if_pos rfl,namex_elem (skipelem_name named plain),bind_of_ok lock]
  simp only [dir,ne_eq,not_true_eq_false,if_false]
  rw [← dir,bind_of_ok look]
  dsimp only
  rw [namex_nil]
  rfl

end Lookup

section Image

variable {img : Image} {used : Nat} {files : List (List UInt8 × List UInt8)}

theorem mem_dropUser {name : List UInt8} {c : UInt8} (mem : c ∈ dropUser name) : c ∈ name := by
  unfold dropUser at mem
  split_ifs at mem
  · exact List.mem_of_mem_drop mem
  · exact mem

theorem mem_dropUnderscore {name : List UInt8} {c : UInt8} (mem : c ∈ dropUnderscore name) : c ∈ name := by
  unfold dropUnderscore at mem
  split at mem
  · exact List.mem_cons_of_mem _ mem
  · exact mem

theorem mem_shortName {name : List UInt8} {c : UInt8} (mem : c ∈ shortName name) : c ∈ name :=
  mem_dropUser (mem_dropUnderscore mem)

theorem entries_valid (clean : ∀ f ∈ files, 0 ∉ f.1) (room : files.length + 2 ≤ NINODES) :
    ∀ e ∈ entries files, 0 < e.1 ∧ e.1 < 2 ^ 16 ∧ 0 ∉ e.2 := by
  intro e mem
  simp only [entries,List.mem_cons,List.mem_mapIdx] at mem
  rcases mem with dot | dotdot | ⟨j,h,named⟩
  · subst dot
    decide
  · subst dotdot
    decide
  · subst named
    have below : j + 2 < 2 ^ 16 := by simp only [NINODES] at room; omega
    exact ⟨by omega,below,fun zero => clean _ (List.getElem_mem h) (mem_shortName zero)⟩

theorem Written.lookup (written : Written img used files) (clean : ∀ f ∈ files, 0 ∉ f.1)
    (room : files.length + 2 ≤ NINODES) (cwd : Nat) {name : List UInt8} (named : name ≠ []) (plain : 0x2F ∉ name)
    (nul : 0 ∉ name) {k₀ : Nat} (found : k₀ < (entries files).length)
    (hit : name.take DIRSIZ = (entries files)[k₀].2.take DIRSIZ)
    (first : ∀ k (below : k < k₀), name.take DIRSIZ ≠ (entries files)[k].2.take DIRSIZ) :
    ∃ droot, Disk.namei sb cwd (0x2F :: name) (mount sb img) = .ok (some (entries files)[k₀].1,view sb img droot) := by
  obtain ⟨din,loaded,dir,holds⟩ := written.root
  have valid := entries_valid clean room
  have rounded : din.size ≤ (din.size / BSIZE + 1) * BSIZE := by simp only [BSIZE]; omega
  exact ⟨_,namei_root cwd loaded dir (holds.lists rounded) named plain nul
    (fun e mem => (valid e mem).2) found ⟨(Nat.pos_iff_ne_zero.mp (valid _ (List.getElem_mem found)).1),hit⟩ first⟩

theorem Written.reads (written : Written img used files) {j : Nat} (h : j < files.length) (din₀ : Dinode) :
    ∃ din, Disk.ilock sb (j + 2) (view sb img din₀) = .ok (din,view sb img din) ∧
      din.type = InodeType.T_FILE.code ∧ din.size = files[j].2.length ∧
      Block.readi 0 files[j].2.length (view sb img din) =
        .ok ((files[j].2.length,Bytes.put (fun _ => 0) 0 files[j].2.length (files[j].2.getD · 0)),view sb img din) := by
  obtain ⟨din,loaded,file,holds⟩ := written.file j h
  have read := holds.readi le_rfl (show 0 + files[j].2.length ≤ files[j].2.length by omega)
  simp only [Nat.zero_add] at read
  refine ⟨din,ilock_view loaded (by rw [file]; decide),file,holds.size,read⟩

end Image

section Readback

end Readback

end Mkfs

end Xv6
