import Xv6.Lib.Lang

namespace Xv6.Grep

open Language Computability

-- user/grep.c. A pattern and a text are the characters before their NUL.
mutual

def matchhere : List Char → List Char → Bool
  | [], _ => true
  | c :: '*' :: re, text => matchstar c re text
  | ['$'], text => text.isEmpty
  | c :: re, t :: text => (c = '.' || c = t) && matchhere re text
  | _ :: _, [] => false
termination_by re text => (re.length,text.length)

-- The do-while loop: try the rest of the pattern here, then after one more
-- character that c admits.
def matchstar (c : Char) (re : List Char) : List Char → Bool
  | [] => matchhere re []
  | t :: text => matchhere re (t :: text) || (t = c || c = '.') && matchstar c re text
termination_by text => (re.length + 1,text.length)

end

-- The do-while loop of match over the positions of the text, its end included.
def matchScan (re : List Char) : List Char → Bool
  | [] => matchhere re []
  | t :: text => matchhere re (t :: text) || matchScan re text

-- match in grep.c, a keyword in Lean.
def grepMatch : List Char → List Char → Bool
  | '^' :: re, text => matchhere re text
  | re, text => matchScan re text

example : grepMatch "^a.*c$".toList "abbc".toList = true := by
  simp [grepMatch,matchhere,matchstar]
example : grepMatch "b*c".toList "aaac".toList = true := by
  simp [grepMatch,matchScan,matchhere,matchstar]

-- What match decides: the pattern as atoms, each maybe followed by '*', and whether '$' ends it.
inductive Atom where
  | lit (c : Char)
  | any
deriving DecidableEq

def Atom.admits : Atom → Char → Prop
  | .lit c, t => t = c
  | .any, t => t ≠ '\x00'

def atom (c : Char) : Atom := if c = '.' then .any else .lit c

structure Piece where
  atom : Atom
  star : Bool
deriving DecidableEq

structure Pattern where
  pieces : List Piece
  atEnd : Bool
deriving DecidableEq

def Pattern.cons (p : Piece) (pat : Pattern) : Pattern := ⟨p :: pat.pieces,pat.atEnd⟩

def parse : List Char → Pattern
  | [] => ⟨[],false⟩
  | c :: '*' :: re => (parse re).cons ⟨atom c,true⟩
  | ['$'] => ⟨[],true⟩
  | c :: re => (parse re).cons ⟨atom c,false⟩

def Atom.lang (a : Atom) : Language Char := symbol a.admits

def Piece.lang (p : Piece) : Language Char := if p.star then p.atom.lang∗ else p.atom.lang

def piecesLang : List Piece → Language Char
  | [] => 1
  | p :: ps => p.lang * piecesLang ps

def Pattern.prefixes (pat : Pattern) : Language Char := piecesLang pat.pieces * if pat.atEnd then 1 else every

def MatchesAt (re text : List Char) : Prop :=
  ∃ u v, text = u ++ v ∧ u ∈ piecesLang (parse re).pieces ∧ ((parse re).atEnd = true → v = [])

def Matches : List Char → List Char → Prop
  | '^' :: re, text => MatchesAt re text
  | re, text => ∃ i ≤ text.length, MatchesAt re (text.drop i)

section Spec

variable {c t : Char} {re text : List Char}

-- The test of matchhere, then the one of matchstar, which reads its operands the other way round.
theorem admits_atom (real : t ≠ '\x00') : (atom c).admits t ↔ (c = '.' || c = t) = true := by
  unfold atom
  by_cases dot : c = '.'
  · simp [dot,Atom.admits,real]
  · simp [dot,Atom.admits,eq_comm]

theorem admits_atom_star (real : t ≠ '\x00') : (atom c).admits t ↔ (t = c || c = '.') = true := by
  unfold atom
  by_cases dot : c = '.'
  · simp [dot,Atom.admits,real]
  · simp [dot,Atom.admits]

theorem prefixes_cons (p : Piece) (pat : Pattern) : (pat.cons p).prefixes = p.lang * pat.prefixes := by
  exact mul_assoc _ _ _

theorem matchesAt_iff : MatchesAt re text ↔ text ∈ (parse re).prefixes := by
  unfold MatchesAt Pattern.prefixes
  cases (parse re).atEnd with
  | false => simp [mem_mul_every]
  | true =>
    simp only [if_true,mul_one,forall_const]
    constructor
    · rintro ⟨u,v,rfl,mem,rfl⟩
      simpa using mem
    · intro mem
      exact ⟨text,[],by simp,mem,rfl⟩

theorem matchstar_iff {L : Language Char} (here : ∀ text, '\x00' ∉ text → (matchhere re text = true ↔ text ∈ L)) :
    '\x00' ∉ text → (matchstar c re text = true ↔ text ∈ (atom c).lang∗ * L) := by
  induction text with
  | nil =>
    intro clean
    rw [matchstar,here [] clean,mem_kstar_mul]
    exact (or_iff_left nil_not_mem_symbol_mul).symm
  | cons t text ih =>
    intro clean
    have real : t ≠ '\x00' := fun nul => clean (by simp [nul])
    have rest : '\x00' ∉ text := fun nul => clean (List.mem_cons_of_mem t nul)
    rw [mem_kstar_mul,matchstar,Bool.or_eq_true,Bool.and_eq_true,here _ clean,ih rest,Atom.lang,cons_mem_symbol_mul,
      admits_atom_star real]

theorem matchhere_iff (clean : '\x00' ∉ text) : matchhere re text = true ↔ text ∈ (parse re).prefixes := by
  induction re using parse.induct generalizing text with
  | case1 => simp [matchhere,parse,Pattern.prefixes,piecesLang]
  | case2 c re ih =>
    rw [matchhere,parse,prefixes_cons,Piece.lang,if_pos rfl]
    exact matchstar_iff (fun _ clean => ih clean) clean
  | case3 => simp [matchhere,parse,Pattern.prefixes,piecesLang]
  | case4 c re plain notEnd ih =>
    rw [parse.eq_4 c re plain notEnd,prefixes_cons,Piece.lang,if_neg Bool.false_ne_true,Atom.lang]
    cases text with
    | nil => simpa [matchhere.eq_5 c re plain notEnd] using nil_not_mem_symbol_mul
    | cons t text =>
      have real : t ≠ '\x00' := fun nul => clean (by simp [nul])
      have rest : '\x00' ∉ text := fun nul => clean (List.mem_cons_of_mem t nul)
      rw [matchhere.eq_4 c re t text plain notEnd,Bool.and_eq_true,ih rest,cons_mem_symbol_mul,admits_atom real]

theorem matchScan_iff (clean : '\x00' ∉ text) : matchScan re text = true ↔ text ∈ every * (parse re).prefixes := by
  induction text with
  | nil => rw [matchScan,matchhere_iff clean,nil_mem_every_mul]
  | cons t text ih =>
    have rest : '\x00' ∉ text := fun nul => clean (List.mem_cons_of_mem t nul)
    rw [matchScan,Bool.or_eq_true,matchhere_iff clean,ih rest,cons_mem_every_mul]

end Spec

theorem grepMatch_iff_matches (re text : List Char) (clean : '\x00' ∉ text) :
    grepMatch re text = true ↔ Matches re text := by
  by_cases anchored : ∃ rest, re = '^' :: rest
  · obtain ⟨re,rfl⟩ := anchored
    rw [grepMatch,Matches,matchhere_iff clean,matchesAt_iff]
  · have plain : ∀ rest, re = '^' :: rest → False := fun rest same => anchored ⟨rest,same⟩
    rw [grepMatch.eq_2 re text plain,Matches.eq_2 re text plain,matchScan_iff clean,mem_every_mul]
    simp only [matchesAt_iff]

theorem matches_anchored_dot_star : Matches "^a.*c$".toList "abbc".toList :=
  (grepMatch_iff_matches _ _ (by simp)).mp (by simp [grepMatch,matchhere,matchstar])

end Xv6.Grep
