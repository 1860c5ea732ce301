import TsukumoCore.Kernel.Types
import TsukumoCore.Lib.Ring

/-!
# The linked list: `kernel/list.h`

A `tkmc_list_head` is its address, and a heap is the two links of every address. An entry is its address
too, with the node `offset` bytes into it.
-/

namespace TsukumoCore

open Ring

abbrev Heap := Links UINT

namespace Heap

/-- `a->next = v` -/
def set_next (h : Heap) (a v : UINT) : Heap := { h with next := Function.update h.next a v }

/-- `a->prev = v` -/
def set_prev (h : Heap) (a v : UINT) : Heap := { h with prev := Function.update h.prev a v }

end Heap

def tkmc_init_list_head (h : Heap) (head : UINT) : Heap :=
  let h := h.set_next head head
  h.set_prev head head

def tkmc_list_empty (h : Heap) (head : UINT) : Bool := head = h.next head

def tkmc_list_entry (ptr offset : UINT) : UINT := ptr - offset

def tkmc_list_first_entry (h : Heap) (ptr offset : UINT) : UINT := tkmc_list_entry (h.next ptr) offset

def tkmc_list_del (h : Heap) (head : UINT) : Heap :=
  let prev := h.prev head
  let next := h.next head
  let h := h.set_next prev next
  let h := h.set_prev next prev
  let h := h.set_prev head 0xdeadbeef
  h.set_next head 0xdeadbeef

def tkmc_list_add_between (h : Heap) (new prev next : UINT) : Heap :=
  let h := h.set_prev next new
  let h := h.set_next new next
  let h := h.set_prev new prev
  h.set_next prev new

def tkmc_list_add (h : Heap) (new head : UINT) : Heap := tkmc_list_add_between h new head (h.next head)

def tkmc_list_add_tail (h : Heap) (new head : UINT) : Heap := tkmc_list_add_between h new (h.prev head) head

def tkmc_list_next_entry (h : Heap) (pos offset : UINT) : UINT := tkmc_list_entry (h.next (pos + offset)) offset

/-! ## Safe traversal -/

section Traversal

variable {σ : Type*} (heap : σ → Heap) (head offset : UINT) (body : UINT → σ → σ)

/-- From the test of the loop on. The result is every `pos` with the state it was visited in, and the state
after the loop; `none` is out of fuel. -/
def for_each_entry_safe : Nat → UINT → UINT → σ → Option (List (UINT × σ) × σ)
  | 0, _, _, _ => none
  | fuel + 1, pos, n, s =>
    if pos + offset = head then some ([], s)
    else
      let s' := body pos s
      (for_each_entry_safe fuel n (tkmc_list_next_entry (heap s') n offset) s').map
        fun (visits, last) => ((pos, s) :: visits, last)

/-- `tkmc_list_for_each_entry_safe(pos, n, head, member) body` -/
def tkmc_list_for_each_entry_safe (fuel : Nat) (s : σ) : Option (List (UINT × σ) × σ) :=
  let pos := tkmc_list_first_entry (heap s) head offset
  let n := tkmc_list_next_entry (heap s) pos offset
  for_each_entry_safe heap head offset body fuel pos n s

end Traversal

end TsukumoCore
