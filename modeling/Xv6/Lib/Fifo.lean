import Mathlib.Logic.Function.Basic
import Mathlib.Data.List.Nodup
import Mathlib.Data.List.Find

namespace Fifo

variable {α : Type} [DecidableEq α]

-- The second-chance FIFO replacement policy over a queue of pages, oldest
-- first: an accessed head loses its bit and moves to the tail, and the first
-- page met unaccessed is the victim. fuel bounds the rotations.
def secondChance : Nat → List α → (α → Bool) → Option α
  | 0,queue,_ => queue.head?
  | _ + 1,[],_ => none
  | fuel + 1,x :: queue,accessed =>
    if accessed x then secondChance fuel (queue ++ [x]) (Function.update accessed x false) else some x

end Fifo
