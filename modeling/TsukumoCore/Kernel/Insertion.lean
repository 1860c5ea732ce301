import TsukumoCore.Kernel.List

/-!
# Insertion by priority, on the links

The three places where a task is put in a wait queue, `tk_wai_sem`, `tk_wai_flg` and `insert_waiter`, and the
two where a message is put in a message queue. A TCB is its address with its `itskpri`, a message its address
with its `msgpri`. A loop that does not end runs out of fuel.
-/

namespace TsukumoCore

namespace Heap

section Waiter

variable (itskpri : UINT → Int) (head offset tcb : UINT)

/-! ## `tk_wai_sem` -/

/-- The loop `tkmc_list_for_each_entry_safe(pos, n, &semcb->wait_queue, winfo.wait_queue)`, and the insertion
at the tail if `inserted` is still `FALSE` after it. -/
def sem_scan (h : Heap) : Nat → UINT → UINT → Option Heap
  | 0, _, _ => none
  | fuel + 1, pos, n =>
    if pos + offset = head then some (tkmc_list_add_tail h (tcb + offset) head)
    else if itskpri tcb < itskpri pos then some (tkmc_list_add h (tcb + offset) (h.prev (pos + offset)))
    else sem_scan h fuel n (tkmc_list_next_entry h n offset)

def insert_sem (h : Heap) (sematr : ATR) (fuel : Nat) : Option Heap :=
  let h := tkmc_init_list_head h (tcb + offset)
  if sematr &&& TA_TPRI ≠ 0 then
    if tkmc_list_empty h head then some (tkmc_list_add_tail h (tcb + offset) head)
    else
      let pos := tkmc_list_first_entry h head offset
      sem_scan itskpri head offset tcb h fuel pos (tkmc_list_next_entry h pos offset)
  else some (tkmc_list_add_tail h (tcb + offset) head)

/-! ## `tk_wai_flg` -/

/-- The same with `tkmc_list_for_each_entry(pos, &flgcb->wait_queue, winfo.wait_queue)`. -/
def flg_scan (h : Heap) : Nat → UINT → Option Heap
  | 0, _ => none
  | fuel + 1, pos =>
    if pos + offset = head then some (tkmc_list_add_tail h (tcb + offset) head)
    else if itskpri tcb < itskpri pos then some (tkmc_list_add h (tcb + offset) (h.prev (pos + offset)))
    else flg_scan h fuel (tkmc_list_next_entry h pos offset)

def insert_flg (h : Heap) (flgatr : ATR) (fuel : Nat) : Option Heap :=
  let h := tkmc_init_list_head h (tcb + offset)
  if flgatr &&& TA_TPRI ≠ 0 then
    if tkmc_list_empty h head then some (tkmc_list_add_tail h (tcb + offset) head)
    else flg_scan itskpri head offset tcb h fuel (tkmc_list_first_entry h head offset)
  else some (tkmc_list_add_tail h (tcb + offset) head)

end Waiter

/-! ## Mailboxes -/

/-- The loop over the links of `insert_waiter` and of `insert_msg_pri`, with the insertion at the tail behind
it. `key` reads the priority of the entry that a link belongs to. -/
def scan_links (key : UINT → Int) (head new_link : UINT) (pri : Int) (h : Heap) : Nat → UINT → Option Heap
  | 0, _ => none
  | fuel + 1, pos =>
    if pos ≠ head then
      if pri < key pos then some (tkmc_list_add h new_link (h.prev pos))
      else scan_links key head new_link pri h fuel (h.next pos)
    else some (tkmc_list_add_tail h new_link head)

def insert_waiter (itskpri : UINT → Int) (head offset tcb : UINT) (h : Heap) (mbxatr : ATR) (fuel : Nat) :
    Option Heap :=
  let wait_link := tcb + offset
  if mbxatr &&& TA_TPRI ≠ 0 then
    scan_links (fun pos => itskpri (tkmc_list_entry pos offset)) head wait_link (itskpri tcb) h fuel (h.next head)
  else some (tkmc_list_add_tail h wait_link head)

/-- `&msg->list` -/
def msg_link (msg : UINT) : UINT := msg

def msg_from_link (link : UINT) : UINT := tkmc_list_entry link 0

def insert_msg_fifo (h : Heap) (mbx_queue msg : UINT) : Heap := tkmc_list_add_tail h (msg_link msg) mbx_queue

def insert_msg_pri (msgpri : UINT → Int) (h : Heap) (mbx_queue msg : UINT) (fuel : Nat) : Option Heap :=
  let new_link := msg_link msg
  let pos := h.next mbx_queue
  if !tkmc_list_empty h mbx_queue ∧ msgpri msg ≥ msgpri (msg_from_link (h.prev mbx_queue)) then
    some (tkmc_list_add_tail h new_link mbx_queue)
  else scan_links (fun pos => msgpri (msg_from_link pos)) mbx_queue new_link (msgpri msg) h fuel pos

end Heap

end TsukumoCore
