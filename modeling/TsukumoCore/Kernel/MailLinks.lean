import TsukumoCore.Kernel.Insertion
import TsukumoCore.Kernel.System

/-!
# The mailbox calls on the links

What `kernel/mailbox.c` does to the links of the messages and to the heads of the message queues. All else it
reads, the control blocks, the waiting receivers and the priorities of the messages, is in the kernel state.
-/

namespace TsukumoCore

/-- Where the linker put the heads: `mbx_queue m` is `&tkmc_mbxcbs[m].mbx_queue`. -/
structure Layout where
  mbx_queue : MbxId → UINT
  injective : Function.Injective mbx_queue

namespace Heap

variable (L : Layout)

/-- The loop of `tkmc_init_mbxcb`. -/
def tkmc_init_mbxcb (h : Heap) : Heap :=
  (List.finRange CFN_MAX_MBXID).foldl (fun h i => tkmc_init_list_head h (L.mbx_queue i)) h

def tk_cre_mbx (k : Kernel) (h : Heap) (pk_cmbx : Option T_CMBX) : Heap :=
  match pk_cmbx with
  | none => h
  | some pk =>
    if pk.mbxatr &&& ~~~VALID_MBXATR ≠ 0 then h
    else
      match k.free_mbxcb with
      | [] => h
      | m :: _ => tkmc_init_list_head h (L.mbx_queue m)

/-- The queued messages are not visited. -/
def tk_del_mbx (k : Kernel) (h : Heap) (mbxid : Int) : Heap :=
  match tableEntry CFN_MAX_MBXID mbxid with
  | none => h
  | some m => if noexs (k.mbxcbs m).mbxid then h else tkmc_init_list_head h (L.mbx_queue m)

/-- `none` is a scan that does not end in `fuel` rounds. -/
def tk_snd_mbx (fuel : Nat) (k : Kernel) (h : Heap) (mbxid : Int) (pk_msg : UINT) : Option Heap :=
  match tableEntry CFN_MAX_MBXID mbxid with
  | none => some h
  | some m =>
    if pk_msg = NULL then some h
    else if noexs (k.mbxcbs m).mbxid then some h
    else if (k.mbxcbs m).mbxatr &&& TA_MPRI ≠ 0 ∧ k.msgpri pk_msg ≤ 0 then some h
    else
      match pop_waiting_receiver k m with
      | (some _, _) => some h
      | (none, _) =>
        if (k.mbxcbs m).mbxatr &&& TA_MPRI ≠ 0 then insert_msg_pri k.msgpri h (L.mbx_queue m) pk_msg fuel
        else some (insert_msg_fifo h (L.mbx_queue m) pk_msg)

/-- The message taken, if there is one. -/
def tk_rcv_mbx (k : Kernel) (h : Heap) (mbxid : Int) (ppk_msg : UINT) (tmout : Int) : Option UINT × Heap :=
  match tableEntry CFN_MAX_MBXID mbxid with
  | none => (none, h)
  | some m =>
    if ppk_msg = NULL ∨ tmout < TMO_FEVR then (none, h)
    else if !tkmc_can_block k k.mie then (none, h)
    else if noexs (k.mbxcbs m).mbxid then (none, h)
    else if !tkmc_list_empty h (L.mbx_queue m) then
      let link := h.next (L.mbx_queue m)
      let msg := msg_from_link link
      let h := tkmc_list_del h link
      let h := tkmc_init_list_head h link
      (some msg, h)
    else (none, h)

/-- The links after an act: no other call touches them. -/
def act (fuel : Nat) (k : Kernel) (h : Heap) : Act → Option Heap
  | .call (.cre_mbx pk_cmbx) _ => some (tk_cre_mbx L k h pk_cmbx)
  | .call (.del_mbx mbxid) _ => some (tk_del_mbx L k h mbxid)
  | .call (.snd_mbx mbxid pk_msg) _ => tk_snd_mbx L fuel k h mbxid pk_msg
  | .call (.wait (.mbx mbxid ppk_msg tmout)) _ => some (tk_rcv_mbx L k h mbxid ppk_msg tmout).2
  | _ => some h

end Heap

end TsukumoCore
