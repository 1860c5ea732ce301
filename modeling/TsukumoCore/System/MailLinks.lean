import Mathlib.Data.Finset.Lattice.Fold
import Mathlib.Data.Fintype.Basic
import TsukumoCore.Kernel.MailLinks
import TsukumoCore.System.MailOrder

/-!
# The links of the messages

A deleted mailbox leaves its messages with links that point into what was its queue. The rings of the
mailboxes that exist stay whole all the same, since every link is written before it is read.
-/

namespace TsukumoCore

open Ring

variable {b : Boot} {e : Entries} {L : Layout} {k k' : Kernel} {h h' h₂ : Heap} {m : MbxId} {msg : UINT}
  {mbxid tmout : Int} {ppk_msg : UINT} {times : List Nat} {a : Act} {x : UINT} {l : List UINT}

/-- The rings of the mailboxes that exist. -/
def mailRings (L : Layout) (k : Kernel) : Rings UINT := fun x =>
  ((List.finRange CFN_MAX_MBXID).find? fun m => decide (L.mbx_queue m = x ∧ noexs (k.mbxcbs m).mbxid = false)).map
    fun m => (k.mbxcbs m).mbx_queue

theorem mailRings_eq_some : mailRings L k x = some l ↔
    ∃ m, L.mbx_queue m = x ∧ noexs (k.mbxcbs m).mbxid = false ∧ (k.mbxcbs m).mbx_queue = l := by
  unfold mailRings
  rw [Option.map_eq_some_iff]
  constructor
  · rintro ⟨m, hfind, hl⟩
    have hm := List.find?_some hfind
    simp only [decide_eq_true_eq] at hm
    exact ⟨m, hm.1, hm.2, hl⟩
  · rintro ⟨m, hx, hlive, hl⟩
    refine ⟨m, ?_, hl⟩
    cases hfind : (List.finRange CFN_MAX_MBXID).find? fun m =>
        decide (L.mbx_queue m = x ∧ noexs (k.mbxcbs m).mbxid = false) with
    | none =>
      have hnone := List.find?_eq_none.mp hfind m (List.mem_finRange m)
      simp [hx, hlive] at hnone
    | some m' =>
      have hm' := List.find?_some hfind
      simp only [decide_eq_true_eq] at hm'
      rw [L.injective (hm'.1.trans hx.symm)]

theorem mailRings_live (hlive : noexs (k.mbxcbs m).mbxid = false) :
    mailRings L k (L.mbx_queue m) = some (k.mbxcbs m).mbx_queue :=
  mailRings_eq_some.mpr ⟨m, rfl, hlive, rfl⟩

/-- The rings are closed and apart, and no message lies in a control block. -/
structure LinksOk (L : Layout) (k : Kernel) (h : Heap) : Prop where
  represents : Represents h (mailRings L k)
  outside : ∀ m, noexs (k.mbxcbs m).mbxid = false → ∀ msg ∈ (k.mbxcbs m).mbx_queue, ∀ m', msg ≠ L.mbx_queue m'

theorem mailRings_congr (hk : k'.mbxcbs = k.mbxcbs) : mailRings L k' = mailRings L k := by
  unfold mailRings
  rw [hk]

theorem LinksOk.same (hok : LinksOk L k h) (hk : k'.mbxcbs = k.mbxcbs) : LinksOk L k' h := by
  refine ⟨by rw [mailRings_congr hk]; exact hok.represents, ?_⟩
  rw [hk]
  exact hok.outside

theorem mailRings_update {cb : MBXCB} (hk : k'.mbxcbs = Function.update k.mbxcbs m cb) :
    mailRings L k' = Function.update (mailRings L k) (L.mbx_queue m)
      (if noexs cb.mbxid then none else some cb.mbx_queue) := by
  funext x
  by_cases hx : x = L.mbx_queue m
  · subst hx
    rw [Function.update_self]
    split
    · rename_i hexs
      rw [Option.eq_none_iff_forall_ne_some]
      intro l hl
      obtain ⟨m', hm', hlive, -⟩ := mailRings_eq_some.mp hl
      rw [L.injective hm', hk, Function.update_self] at hlive
      exact absurd (hexs.symm.trans hlive) (by simp)
    · rename_i hexs
      refine mailRings_eq_some.mpr ⟨m, rfl, ?_, ?_⟩
      · rw [hk, Function.update_self]
        simpa using hexs
      · rw [hk, Function.update_self]
  · rw [Function.update_of_ne hx]
    apply Option.ext
    intro l
    simp only [mailRings_eq_some]
    constructor
    · rintro ⟨m', rfl, hlive, hl⟩
      have hm : m' ≠ m := fun he => hx (by rw [he])
      rw [hk, Function.update_of_ne hm] at hlive hl
      exact ⟨m', rfl, hlive, hl⟩
    · rintro ⟨m', rfl, hlive, hl⟩
      have hm : m' ≠ m := fun he => hx (by rw [he])
      refine ⟨m', rfl, ?_, ?_⟩ <;> rwa [hk, Function.update_of_ne hm]

/-! ## What stands on no ring -/

theorem LinksOk.head_apart (hok : LinksOk L k h) (m : MbxId) :
    ∀ head l, mailRings L k head = some l → head ≠ L.mbx_queue m → L.mbx_queue m ∉ head :: l := by
  intro head l hl hne hmem
  obtain ⟨m', rfl, hlive, rfl⟩ := mailRings_eq_some.mp hl
  rcases List.mem_cons.mp hmem with heq | hqueued
  · exact hne heq.symm
  · exact hok.outside m' hlive _ hqueued m rfl

theorem detached_msg (hfresh : ∀ m, noexs (k.mbxcbs m).mbxid = false → msg ∉ (k.mbxcbs m).mbx_queue)
    (hout : ∀ m, msg ≠ L.mbx_queue m) : Detached (mailRings L k) msg := by
  intro head l hl hmem
  obtain ⟨m, rfl, hlive, rfl⟩ := mailRings_eq_some.mp hl
  rcases List.mem_cons.mp hmem with heq | hqueued
  · exact hout m heq
  · exact hfresh m hlive hqueued

/-! ## Each call -/

/-- The rings of the mailboxes that exist, other than `o`, have the same links in both heaps. -/
def SameLinks (L : Layout) (k : Kernel) (h h' : Heap) (o : Option MbxId) : Prop :=
  ∀ m', noexs (k.mbxcbs m').mbxid = false → o ≠ some m' → ∀ x ∈ L.mbx_queue m' :: (k.mbxcbs m').mbx_queue,
    h'.next x = h.next x ∧ h'.prev x = h.prev x

theorem SameLinks.refl (L : Layout) (k : Kernel) (h : Heap) (o : Option MbxId) : SameLinks L k h h o :=
  fun _ _ _ _ _ => ⟨rfl, rfl⟩

theorem SameLinks.of_becomes (hb : Becomes h (mailRings L k) h' (L.mbx_queue m) l) :
    SameLinks L k h h' (some m) := by
  intro m' hlive hne x hx
  have hm : L.mbx_queue m' ≠ L.mbx_queue m := fun he => hne (by rw [L.injective he])
  exact hb.others (mailRings_live hlive) hm hx

theorem LinksOk.setMbx (hok : LinksOk L k h) {cb : MBXCB} (hk : k'.mbxcbs = Function.update k.mbxcbs m cb)
    (hb : Becomes h (mailRings L k) h' (L.mbx_queue m) cb.mbx_queue)
    (hout : ∀ msg ∈ cb.mbx_queue, ∀ m', msg ≠ L.mbx_queue m') : LinksOk L k' h' := by
  refine ⟨?_, fun m' hlive => ?_⟩
  · rw [mailRings_update hk]
    split
    · have hgone := hb.represents.forget (L.mbx_queue m)
      rwa [Function.update_idem] at hgone
    · exact hb.represents
  · rw [hk] at hlive ⊢
    by_cases hm : m' = m
    · subst hm
      rw [Function.update_self]
      exact hout
    · rw [Function.update_of_ne hm] at hlive ⊢
      exact hok.outside m' hlive

theorem heap_cre_mbx (k : Kernel) (h : Heap) (pk_cmbx : Option T_CMBX) :
    Heap.tk_cre_mbx L k h pk_cmbx = if (tk_cre_mbx k pk_cmbx).1.ercd = .E_OK then
      match k.free_mbxcb with
      | [] => h
      | m :: _ => tkmc_init_list_head h (L.mbx_queue m)
      else h := by
  unfold Heap.tk_cre_mbx tk_cre_mbx
  cases pk_cmbx with
  | none => rfl
  | some pk =>
    dsimp only
    split
    · rfl
    · have hfree : k.DI.free_mbxcb = k.free_mbxcb := rfl
      rw [hfree]
      cases k.free_mbxcb <;> rfl

theorem cre_mbx_links (hc : Core k.toTasks k.toObjects) (hok : LinksOk L k h) (pk_cmbx : Option T_CMBX) :
    LinksOk L (tk_cre_mbx k pk_cmbx).2 (Heap.tk_cre_mbx L k h pk_cmbx) ∧
      SameLinks L k h (Heap.tk_cre_mbx L k h pk_cmbx) none := by
  rw [heap_cre_mbx]
  rcases tk_cre_mbx_standing hc pk_cmbx with ⟨hercd, hsame⟩ | ⟨m, rest, cb, hfree, hercd, -, hq, hst, -⟩
  · rw [if_neg hercd, hsame]
    exact ⟨hok, .refl L k h none⟩
  · have hdead : noexs (k.mbxcbs m).mbxid = true := by
      have hgone := (hc.tables.free (.mbx m)).mp (show m ∈ k.free_mbxcb by rw [hfree]; simp)
      simpa [Objects.Live, Objects.cb, CB.id] using hgone
    have hb := hok.represents.reset (hok.head_apart m)
    rw [if_pos hercd, hfree]
    refine ⟨hok.setMbx (congrArg Standing.mbxcbs hst) (by rw [hq]; exact hb) (by simp [hq]), ?_⟩
    intro m' hlive _
    refine SameLinks.of_becomes hb m' hlive fun he => ?_
    rw [Option.some.inj he] at hdead
    exact absurd (hdead.symm.trans hlive) (by simp)

theorem heap_del_mbx (k : Kernel) (h : Heap) (mbxid : Int) :
    Heap.tk_del_mbx L k h mbxid =
      if (tk_del_mbx k mbxid).1 = .E_OK then
        match tableEntry CFN_MAX_MBXID mbxid with
        | none => h
        | some m => tkmc_init_list_head h (L.mbx_queue m)
      else h := by
  unfold Heap.tk_del_mbx
  cases he : tableEntry CFN_MAX_MBXID mbxid with
  | none => simp
  | some m =>
    have hercd : (tk_del_mbx k mbxid).1 = if noexs (k.mbxcbs m).mbxid then .E_NOEXS else .E_OK := by
      unfold tk_del_mbx
      rw [he]
      have hcbs : k.DI.mbxcbs = k.mbxcbs := rfl
      dsimp only
      rw [hcbs]
      split <;> rfl
    rw [hercd]
    dsimp only
    cases noexs (k.mbxcbs m).mbxid <;> rfl

theorem del_mbx_links (hc : Core k.toTasks k.toObjects) (hok : LinksOk L k h) (mbxid : Int) :
    LinksOk L (tk_del_mbx k mbxid).2 (Heap.tk_del_mbx L k h mbxid) ∧
      SameLinks L k h (Heap.tk_del_mbx L k h mbxid) (tableEntry CFN_MAX_MBXID mbxid) := by
  rw [heap_del_mbx]
  rcases tk_del_mbx_standing hc mbxid with ⟨hercd, hsame⟩ | ⟨m, he, -, hercd, hst, -⟩
  · rw [if_neg hercd, hsame]
    exact ⟨hok, .refl L k h _⟩
  · have hb := hok.represents.reset (hok.head_apart m)
    rw [if_pos hercd, he]
    exact ⟨hok.setMbx (congrArg Standing.mbxcbs hst) hb (by simp), .of_becomes hb⟩

/-! ## Sending -/

theorem heap_snd_mbx (hc : Core k.toTasks k.toObjects) (fuel : Nat) (h : Heap) (mbxid : Int) (msg : UINT) :
    Heap.tk_snd_mbx L fuel k h mbxid msg =
      match k.mailTo mbxid msg with
      | none => some h
      | some m =>
        if (k.mbxcbs m).mbxatr &&& TA_MPRI ≠ 0 then Heap.insert_msg_pri k.msgpri h (L.mbx_queue m) msg fuel
        else some (Heap.insert_msg_fifo h (L.mbx_queue m) msg) := by
  unfold Heap.tk_snd_mbx
  cases he : tableEntry CFN_MAX_MBXID mbxid with
  | none => simp [Kernel.mailTo, he]
  | some m =>
    dsimp only
    split
    · rename_i hnull
      rw [mailTo_eq_none he (.inl hnull)]
    rename_i hnull
    split
    · rename_i hexs
      rw [mailTo_eq_none he (.inr (.inl hexs))]
    rename_i hexs
    split
    · rename_i hpri
      rw [mailTo_eq_none he (.inr (.inr (.inl hpri)))]
    rename_i hpri
    cases hq : k.wait_queue (.mbx m) with
    | nil =>
      have hto : k.mailTo mbxid msg = some m := mailTo_eq_some.mpr ⟨he, hnull, Bool.eq_false_iff.mpr hexs, hpri, hq⟩
      rw [hto, pop_none hq]
    | cons t rest =>
      rw [mailTo_eq_none he (.inr (.inr (.inr (by simp [hq])))), pop_some hc hq]

theorem insert_becomes (hR : Represents h (mailRings L k)) (hlive : noexs (k.mbxcbs m).mbxid = false)
    (hd : Detached (mailRings L k) msg) :
    ∃ h', (∀ fuel, (k.mbxcbs m).mbx_queue.length < fuel →
      (if (k.mbxcbs m).mbxatr &&& TA_MPRI ≠ 0 then Heap.insert_msg_pri k.msgpri h (L.mbx_queue m) msg fuel
        else some (Heap.insert_msg_fifo h (L.mbx_queue m) msg)) = some h') ∧
      Becomes h (mailRings L k) h' (L.mbx_queue m) ((k.mbxcbs m).insert k.msgpri msg) := by
  unfold MBXCB.insert
  split
  · exact insert_msg_pri_becomes hR (mailRings_live hlive) hd
  · exact ⟨_, fun _ _ => rfl, insert_msg_fifo_becomes hR (mailRings_live hlive) hd⟩

theorem mem_insert {cb : MBXCB} {msgpri : UINT → Int} {x : UINT} (hx : x ∈ cb.insert msgpri msg) :
    x = msg ∨ x ∈ cb.mbx_queue := by
  have hscan : x ∈ scan_msg_pri msgpri cb.mbx_queue msg → x = msg ∨ x ∈ cb.mbx_queue := by
    rw [scan_msg_pri_split, List.mem_append, List.mem_cons]
    rintro (hfront | rfl | hback)
    · exact .inr ((List.takeWhile_sublist _).subset hfront)
    · exact .inl rfl
    · exact .inr ((List.dropWhile_sublist _).subset hback)
  have htail : x ∈ cb.mbx_queue ++ [msg] → x = msg ∨ x ∈ cb.mbx_queue := by
    rw [List.mem_append, List.mem_singleton]
    exact Or.symm
  unfold MBXCB.insert insert_msg_fifo insert_msg_pri at hx
  split at hx
  · split at hx
    · split at hx
      · exact htail hx
      · exact hscan hx
    · exact hscan hx
  · exact htail hx

/-- More rounds than the longest queue needs. -/
def Enough (k : Kernel) (fuel : Nat) : Prop := ∀ m, (k.mbxcbs m).mbx_queue.length < fuel

theorem snd_mbx_links (hc : Core k.toTasks k.toObjects) (hok : LinksOk L k h) (mbxid : Int)
    (hfresh : ∀ m, noexs (k.mbxcbs m).mbxid = false → msg ∉ (k.mbxcbs m).mbx_queue)
    (hout : ∀ m, msg ≠ L.mbx_queue m) :
    ∃ h', (∀ fuel, Enough k fuel → Heap.tk_snd_mbx L fuel k h mbxid msg = some h') ∧
      LinksOk L (tk_snd_mbx k mbxid msg).2 h' ∧ SameLinks L k h h' (tableEntry CFN_MAX_MBXID mbxid) := by
  have hst := tk_snd_mbx_standing hc mbxid msg
  simp only [heap_snd_mbx hc]
  cases hto : k.mailTo mbxid msg with
  | none =>
    rw [hto] at hst
    exact ⟨h, fun _ _ => rfl, hok.same (congrArg Standing.mbxcbs hst), .refl L k h _⟩
  | some m =>
    rw [hto] at hst
    obtain ⟨he, -, hlive, -⟩ := mailTo_eq_some.mp hto
    obtain ⟨h', hrun, hb⟩ := insert_becomes hok.represents hlive (detached_msg hfresh hout)
    have hcbs := congrArg Standing.mbxcbs hst
    rw [he]
    refine ⟨h', fun fuel hfuel => hrun fuel (hfuel m), hok.setMbx hcbs hb fun x hx => ?_, .of_becomes hb⟩
    rcases mem_insert hx with rfl | hqueued
    · exact hout
    · exact hok.outside m hlive x hqueued

/-! ## Receiving -/

theorem heap_rcv_mbx (k : Kernel) (h : Heap) (mbxid : Int) (ppk_msg : UINT) (tmout : Int) :
    Heap.tk_rcv_mbx L k h mbxid ppk_msg tmout =
      match k.mailFrom mbxid ppk_msg tmout with
      | none => (none, h)
      | some m =>
        if tkmc_list_empty h (L.mbx_queue m) then (none, h)
        else (some (h.next (L.mbx_queue m)),
          tkmc_init_list_head (tkmc_list_del h (h.next (L.mbx_queue m))) (h.next (L.mbx_queue m))) := by
  unfold Heap.tk_rcv_mbx
  cases he : tableEntry CFN_MAX_MBXID mbxid with
  | none => simp [Kernel.mailFrom, he]
  | some m =>
    dsimp only
    split
    · rename_i hpar
      rw [mailFrom_eq_none he (by tauto)]
    rename_i hpar
    split
    · rename_i hblock
      rw [mailFrom_eq_none he (.inr (.inr (.inl (by simpa using hblock))))]
    rename_i hblock
    split
    · rename_i hexs
      rw [mailFrom_eq_none he (.inr (.inr (.inr hexs)))]
    rename_i hexs
    have hfrom : k.mailFrom mbxid ppk_msg tmout = some m :=
      mailFrom_eq_some.mpr ⟨he, by tauto, by omega, by simpa using hblock, Bool.eq_false_iff.mpr hexs⟩
    rw [hfrom, msg_from_link_eq]
    dsimp only
    cases tkmc_list_empty h (L.mbx_queue m) <;> rfl

theorem take_becomes (hR : Represents h (mailRings L k)) (hlive : noexs (k.mbxcbs m).mbxid = false)
    {rest : List UINT} (hq : (k.mbxcbs m).mbx_queue = msg :: rest) :
    Becomes h (mailRings L k) (tkmc_init_list_head (tkmc_list_del h msg) msg) (L.mbx_queue m) rest := by
  have hl : mailRings L k (L.mbx_queue m) = some ([] ++ msg :: rest) := by rw [mailRings_live hlive, hq]; rfl
  exact (list_del_becomes hR hl).congr (hR.detached_of_remove hl)
    fun x hx => ⟨Links.link_next hx, Links.link_prev hx⟩

theorem rcv_mbx_links (hok : LinksOk L k h) (mbxid : Int) (ppk_msg : UINT) (tmout : Int) (times : List Nat) :
    (Heap.tk_rcv_mbx L k h mbxid ppk_msg tmout).1 = (tk_rcv_mbx k mbxid ppk_msg tmout times).1.taken ∧
    LinksOk L (tk_rcv_mbx k mbxid ppk_msg tmout times).2 (Heap.tk_rcv_mbx L k h mbxid ppk_msg tmout).2 ∧
    SameLinks L k h (Heap.tk_rcv_mbx L k h mbxid ppk_msg tmout).2 (tableEntry CFN_MAX_MBXID mbxid) := by
  have hst := tk_rcv_mbx_standing k mbxid ppk_msg tmout times
  rw [heap_rcv_mbx]
  cases hfrom : k.mailFrom mbxid ppk_msg tmout with
  | none =>
    rw [hfrom] at hst
    exact ⟨(tk_rcv_mbx_refused hfrom).symm, hok.same (congrArg Standing.mbxcbs hst), .refl L k h _⟩
  | some m =>
    rw [hfrom] at hst
    obtain ⟨he, -, -, -, hlive⟩ := mailFrom_eq_some.mp hfrom
    have hr := hok.represents.ring (mailRings_live hlive)
    have hempty := list_empty_iff hr
    rw [tk_rcv_mbx_taken hfrom, he]
    dsimp only
    cases hq : (k.mbxcbs m).mbx_queue with
    | nil =>
      rw [if_pos (hempty.mpr hq)]
      have hcb : { k.mbxcbs m with mbx_queue := (k.mbxcbs m).mbx_queue.tail } = k.mbxcbs m := by
        rw [hq, List.tail_nil, ← hq]
      have hcbs := congrArg Standing.mbxcbs hst
      simp only [Standing.setQueue, Kernel.standing, hcb, Function.update_eq_self] at hcbs
      exact ⟨rfl, hok.same hcbs, .refl L k h _⟩
    | cons msg rest =>
      have hnext : h.next (L.mbx_queue m) = msg := by rw [hr.next_head, hq]; rfl
      have hb := take_becomes hok.represents hlive hq
      simp only [hq, List.tail_cons] at hst
      rw [if_neg (fun he => by simp [hempty.mp he] at hq), hnext]
      refine ⟨rfl, hok.setMbx (congrArg Standing.mbxcbs hst) hb fun x hx => ?_, .of_becomes hb⟩
      exact hok.outside m hlive x (by rw [hq]; exact List.mem_cons_of_mem _ hx)

/-! ## Every step -/

/-- The mailbox that the call names. -/
def Act.mailbox : Act → Option MbxId
  | .call (.del_mbx mbxid) _ => tableEntry CFN_MAX_MBXID mbxid
  | .call (.snd_mbx mbxid _) _ => tableEntry CFN_MAX_MBXID mbxid
  | .call (.wait (.mbx mbxid _ _)) _ => tableEntry CFN_MAX_MBXID mbxid
  | _ => none

/-- A message that is sent is in no queue of an existing mailbox, and no part of a control block. -/
def SendsApart (L : Layout) (k : Kernel) : Act → Prop
  | .call (.snd_mbx _ pk_msg) _ =>
    (∀ m, noexs (k.mbxcbs m).mbxid = false → pk_msg ∉ (k.mbxcbs m).mbx_queue) ∧ ∀ m, pk_msg ≠ L.mbx_queue m
  | _ => True

theorem act_same (ha : a.rearranges = false) (fuel : Nat) : Heap.act L fuel k h a = some h := by
  cases a with
  | call c times =>
    cases c with
    | cre_mbx | del_mbx | snd_mbx => cases ha
    | wait w =>
      cases w with
      | mbx => cases ha
      | _ => rfl
    | _ => rfl
  | _ => rfl

/-- What a step does to the links: it ends, with the rings of the next state, and it leaves those of the
mailboxes it does not name. -/
structure LinkStep (L : Layout) (k : Kernel) (h : Heap) (a : Act) (k' : Kernel) (h' : Heap) : Prop where
  ends : ∀ fuel, Enough k fuel → Heap.act L fuel k h a = some h'
  ok : LinksOk L k' h'
  frame : SameLinks L k h h' a.mailbox

theorem LinkStep.same (hok : LinksOk L k h) (hact : ∀ fuel, Heap.act L fuel k h a = some h)
    (hk : k'.mbxcbs = k.mbxcbs) : LinkStep L k h a k' h :=
  ⟨fun fuel _ => hact fuel, hok.same hk, .refl L k h _⟩

theorem exec_links (hc : Core k.toTasks k.toObjects) (hok : LinksOk L k h) {c : Call} {flow : Flow}
    (hapart : SendsApart L k (.call c times)) (hx : exec e k times c = some (flow, k')) :
    ∃ h', LinkStep L k h (.call c times) k' h' := by
  by_cases hrest : c.rearranges = false
  · exact ⟨h, .same hok (act_same hrest) (congrArg Standing.mbxcbs (exec_standing hrest hx))⟩
  cases c with
  | cre_sem pk =>
    obtain ⟨-, rfl⟩ : _ ∧ (tk_cre_sem k pk).2 = k' := by simpa [exec] using hx
    exact ⟨h, .same hok (fun _ => rfl) (congrArg Standing.mbxcbs (tk_cre_sem_standing k pk))⟩
  | del_sem semid =>
    obtain ⟨-, rfl⟩ : _ ∧ (tk_del_sem k semid).2 = k' := by simpa [exec] using hx
    exact ⟨h, .same hok (fun _ => rfl) (congrArg Standing.mbxcbs (tk_del_sem_standing hc semid))⟩
  | cre_flg pk =>
    obtain ⟨-, rfl⟩ : _ ∧ (tk_cre_flg k pk).2 = k' := by simpa [exec] using hx
    exact ⟨h, .same hok (fun _ => rfl) (congrArg Standing.mbxcbs (tk_cre_flg_standing k pk))⟩
  | cre_mbx pk =>
    obtain ⟨-, rfl⟩ : _ ∧ (tk_cre_mbx k pk).2 = k' := by simpa [exec] using hx
    obtain ⟨hok', hframe⟩ := cre_mbx_links hc hok pk
    exact ⟨_, fun _ _ => rfl, hok', hframe⟩
  | del_mbx mbxid =>
    obtain ⟨-, rfl⟩ : _ ∧ (tk_del_mbx k mbxid).2 = k' := by simpa [exec] using hx
    obtain ⟨hok', hframe⟩ := del_mbx_links hc hok mbxid
    exact ⟨_, fun _ _ => rfl, hok', hframe⟩
  | snd_mbx mbxid pk_msg =>
    obtain ⟨-, rfl⟩ : _ ∧ (tk_snd_mbx k mbxid pk_msg).2 = k' := by simpa [exec] using hx
    obtain ⟨h', hrun, hok', hframe⟩ := snd_mbx_links hc hok mbxid hapart.1 hapart.2
    exact ⟨h', hrun, hok', hframe⟩
  | wait w =>
    cases w with
    | mbx mbxid ppk_msg tmout =>
      obtain ⟨-, rfl⟩ : _ ∧ (tk_rcv_mbx k mbxid ppk_msg tmout times).2 = k' := by
        simpa [exec, Prod.ext_iff] using hx
      obtain ⟨-, hok', hframe⟩ := rcv_mbx_links hok mbxid ppk_msg tmout times
      exact ⟨_, fun _ _ => rfl, hok', hframe⟩
    | _ => exact absurd rfl hrest
  | _ => exact absurd rfl hrest

theorem step_links (hc : Core k.toTasks k.toObjects) (hok : LinksOk L k h) (hapart : SendsApart L k a)
    (hk : step e k a = some k') : ∃ h', LinkStep L k h a k' h' := by
  by_cases ha : a.rearranges = false
  · exact ⟨h, .same hok (act_same ha) (congrArg Standing.mbxcbs (step_standing ha hk))⟩
  cases a with
  | call c times =>
    simp only [step, Option.ite_none_right_eq_some, Option.map_eq_some_iff] at hk
    obtain ⟨-, ⟨flow, k1⟩, hx, rfl⟩ := hk
    obtain ⟨h', hends, hok', hframe⟩ := exec_links hc hok hapart hx
    exact ⟨h', hends, hok'.same (congrArg Standing.mbxcbs (leave_call_standing k1 c flow)), hframe⟩
  | set_msgpri msg msgpri =>
    obtain rfl := Option.some.inj hk
    exact ⟨h, .same hok (fun _ => rfl) rfl⟩
  | _ => exact absurd rfl ha

/-! ## Runs -/

/-- The kernel steps and the links follow, with as many rounds of the loop as it needs. -/
structure LinkSteps (L : Layout) (e : Entries) (s : Kernel × Heap) (a : Act) (s' : Kernel × Heap) : Prop where
  kernel : Steps e s.1 a s'.1
  apart : SendsApart L s.1 a
  links : ∃ rounds, ∀ fuel ≥ rounds, Heap.act L fuel s.1 s.2 a = some s'.2

/-- The links of all memory may be anything before `tkmc_init_mbxcb`. -/
def LinkReachable (b : Boot) (L : Layout) : Kernel × Heap → Prop :=
  Paths.Reach (fun s => tkmc_start b = some s.1 ∧ ∃ h, s.2 = Heap.tkmc_init_mbxcb L h) (LinkSteps L b.entries)

theorem enough_large (k : Kernel) : ∃ rounds, ∀ fuel ≥ rounds, Enough k fuel := by
  refine ⟨Finset.univ.sup (fun m => (k.mbxcbs m).mbx_queue.length) + 1, fun fuel hfuel m => ?_⟩
  have hm : (k.mbxcbs m).mbx_queue.length ≤ Finset.univ.sup fun m => (k.mbxcbs m).mbx_queue.length :=
    Finset.le_sup (f := fun m => (k.mbxcbs m).mbx_queue.length) (Finset.mem_univ m)
  omega

theorem LinkSteps.linkStep {s s' : Kernel × Heap} (hs : LinkSteps L e s a s')
    (hc : Core s.1.toTasks s.1.toObjects) (hok : LinksOk L s.1 s.2) : LinkStep L s.1 s.2 a s'.1 s'.2 := by
  obtain ⟨h', hl⟩ := step_links hc hok hs.apart hs.kernel
  obtain ⟨rounds, hlinks⟩ := hs.links
  obtain ⟨rounds', hfuel⟩ := enough_large s.1
  have hsame : h' = s'.2 := Option.some.inj ((hl.ends _ (hfuel (max rounds rounds') (Nat.le_max_right _ _))).symm.trans
    (hlinks _ (Nat.le_max_left _ _)))
  exact hsame ▸ hl

theorem LinkReachable.ok {s : Kernel × Heap} (hs : LinkReachable b L s) : Reachable b s.1 ∧ LinksOk L s.1 s.2 := by
  refine Paths.Reach.invariant (I := fun s => Reachable b s.1 ∧ LinksOk L s.1 s.2) ?_ ?_ hs
  · rintro ⟨k, h⟩ ⟨hk, -⟩
    obtain ⟨-, hobj, -⟩ := start_tasks hk
    have hdead : ∀ m, ¬ noexs (k.mbxcbs m).mbxid = false := by
      intro m hlive
      have hnot : ¬ k.Live (.mbx m) := by rw [hobj]; exact init_dead (.mbx m)
      exact hnot hlive
    have hnone : ∀ {x l}, ¬ mailRings L k x = some l := by
      intro x l hl
      obtain ⟨m, -, hlive, -⟩ := mailRings_eq_some.mp hl
      exact hdead m hlive
    exact ⟨⟨k, [], hk, .nil k⟩, ⟨fun hl => absurd hl hnone, fun hl => absurd hl hnone⟩,
      fun m hlive => absurd hlive (hdead m)⟩
  · rintro ⟨k, h⟩ a ⟨k', h'⟩ ⟨hreach, hok⟩ hstep
    exact ⟨hreach.step hstep.kernel, (hstep.linkStep hreach.inv.core hok).ok⟩

theorem LinksOk.congr (hok : LinksOk L k h) (hsame : SameLinks L k h h₂ none) : LinksOk L k h₂ := by
  refine ⟨hok.represents.congr ?_ ?_, hok.outside⟩
  · rintro _ _ x hl hx
    obtain ⟨m, rfl, hlive, rfl⟩ := mailRings_eq_some.mp hl
    exact (hsame m hlive (by simp) x hx).1
  · rintro _ _ x hl hx
    obtain ⟨m, rfl, hlive, rfl⟩ := mailRings_eq_some.mp hl
    exact (hsame m hlive (by simp) x hx).2

theorem LinksOk.sameLinks (hok : LinksOk L k h) (hok₂ : LinksOk L k h₂) : SameLinks L k h h₂ none := by
  intro m hlive _ x hx
  exact (hok.represents.ring (mailRings_live hlive)).same_links (hok₂.represents.ring (mailRings_live hlive)) hx

/-- **Messages of deleted mailboxes can be sent again**: every queue is a ring of its own with what was sent and
not received, no call changes the ring of a mailbox it does not name, and what the calls do depends on the links
of these rings alone (`h₂` has any others). -/
theorem messages_sent_again (hs : LinkReachable b L (k, h)) :
    (∀ m, noexs (k.mbxcbs m).mbxid = false → IsRing h (L.mbx_queue m) (k.mbxcbs m).mbx_queue) ∧
    (∀ (m : MbxId) (pre post : List Event) (pk : T_CMBX) (r : Ret), noexs (k.mbxcbs m).mbxid = false →
      k.log = pre ++ .ret (.cre_mbx (some pk)) r :: post → r.ercd = .E_OK → r.id = m + 1 →
      (∀ ev ∈ post, createdMbx m ev = none) → ∀ msg, ((k.mbxcbs m).mbx_queue.count msg : Int) =
        (post.map (sent m msg)).sum - (post.map (received m msg)).sum) ∧
    (∀ a k', Steps b.entries k a k' → SendsApart L k a →
      ∃ h', (∀ fuel, Enough k fuel → Heap.act L fuel k h a = some h') ∧ SameLinks L k h h' a.mailbox ∧
        ∀ h₂, SameLinks L k h h₂ none →
          ∃ h₂', (∀ fuel, Enough k fuel → Heap.act L fuel k h₂ a = some h₂') ∧ SameLinks L k' h' h₂' none) ∧
    ∀ h₂, SameLinks L k h h₂ none → ∀ mbxid ppk_msg tmout times,
      (Heap.tk_rcv_mbx L k h₂ mbxid ppk_msg tmout).1 = (tk_rcv_mbx k mbxid ppk_msg tmout times).1.taken := by
  obtain ⟨hreach, hok⟩ := hs.ok
  refine ⟨fun m hlive => hok.represents.ring (mailRings_live hlive), ?_, ?_, ?_⟩
  · intro m pre post pk r hlive hlog hercd hid hsince msg
    exact hreach.queued hlive hlog hercd hid hsince msg
  · intro a k' hstep hapart
    obtain ⟨h', hl⟩ := step_links hreach.inv.core hok hapart hstep
    refine ⟨h', hl.ends, hl.frame, fun h₂ hsame => ?_⟩
    obtain ⟨h₂', hl₂⟩ := step_links hreach.inv.core (hok.congr hsame) hapart hstep
    exact ⟨h₂', hl₂.ends, hl.ok.sameLinks hl₂.ok⟩
  · intro h₂ hsame mbxid ppk_msg tmout times
    exact (rcv_mbx_links (hok.congr hsame) mbxid ppk_msg tmout times).1

/-! ## A run -/

def sendsApart (L : Layout) (k : Kernel) : Act → Bool
  | .call (.snd_mbx _ pk_msg) _ =>
    decide ((∀ m, noexs (k.mbxcbs m).mbxid = false → pk_msg ∉ (k.mbxcbs m).mbx_queue) ∧ ∀ m, pk_msg ≠ L.mbx_queue m)
  | _ => true

theorem sendsApart_sound (hb : sendsApart L k a = true) : SendsApart L k a := by
  cases a with
  | call c times =>
    cases c with
    | snd_mbx mbxid pk_msg =>
      have happ : (∀ m, noexs (k.mbxcbs m).mbxid = false → pk_msg ∉ (k.mbxcbs m).mbx_queue) ∧
          ∀ m, pk_msg ≠ L.mbx_queue m := of_decide_eq_true hb
      exact happ
    | _ => trivial
  | _ => trivial

/-- The run of `as` with the links, as long as it keeps to the rule. -/
def linkRun (L : Layout) (e : Entries) (fuel : Nat) : Kernel → Heap → List Act → Option (Kernel × Heap)
  | k, h, [] => some (k, h)
  | k, h, a :: as =>
    if sendsApart L k a ∧ ∀ m, (k.mbxcbs m).mbx_queue.length < fuel then
      (step e k a).bind fun k' => (Heap.act L fuel k h a).bind fun h' => linkRun L e fuel k' h' as
    else none

theorem linkRun_reachable {fuel : Nat} {as : List Act} {s : Kernel × Heap} (hs : LinkReachable b L (k, h))
    (hrun : linkRun L b.entries fuel k h as = some s) : LinkReachable b L s := by
  induction as generalizing k h with
  | nil =>
    obtain rfl := Option.some.inj hrun
    exact hs
  | cons a as ih =>
    simp only [linkRun, Option.ite_none_right_eq_some, Option.bind_eq_some_iff] at hrun
    obtain ⟨⟨happ, hfuel⟩, k', hstep, h', hact, hrest⟩ := hrun
    obtain ⟨hreach, hok⟩ := hs.ok
    obtain ⟨h'', hl⟩ := step_links hreach.inv.core hok (sendsApart_sound happ) hstep
    obtain rfl : h' = h'' := Option.some.inj (hact.symm.trans (hl.ends fuel hfuel))
    obtain ⟨rounds, henough⟩ := enough_large k
    have hstep' : LinkSteps L b.entries (k, h) a (k', h') :=
      ⟨hstep, sendsApart_sound happ, rounds, fun f hf => hl.ends f (henough f hf)⟩
    exact ih (Paths.Reach.step hs hstep') hrest

def sampleLayout : Layout where
  mbx_queue := fun m => 0x80010000 + 64 * BitVec.ofNat 32 m
  injective := by decide

def sampleLinks : Heap := { next := fun _ => 0, prev := fun _ => 0 }

/-- All mailboxes are created, and the first one is deleted with two messages in its queue. Its block is then the
only free one. It is used again, and the second message is sent to the new mailbox, still linked with the first. -/
def resendRun : List Act :=
  List.replicate CFN_MAX_MBXID (.call (.cre_mbx (some { exinf := 0, mbxatr := 0 })) []) ++
    [.call (.snd_mbx 1 0x80020000) [], .call (.snd_mbx 1 0x80030000) [], .call (.del_mbx 1) [],
      .call (.cre_mbx (some { exinf := 0, mbxatr := 0 })) [], .call (.snd_mbx 1 0x80030000) []]

theorem messages_sent_again_resendRun : ∃ k h, LinkReachable sampleBoot sampleLayout (k, h) ∧
    h.next 0x80020000 = 0x80030000 ∧ (k.mbxcbs 0).mbx_queue = [0x80030000] ∧
    IsRing h (sampleLayout.mbx_queue 0) [0x80030000] := by
  have hrun : ((tkmc_start sampleBoot).bind fun k => linkRun sampleLayout sampleBoot.entries 3 k
      (Heap.tkmc_init_mbxcb sampleLayout sampleLinks) resendRun).any (fun s => decide (
        s.2.next 0x80020000 = 0x80030000 ∧ (s.1.mbxcbs 0).mbx_queue = [0x80030000] ∧
        noexs (s.1.mbxcbs 0).mbxid = false)) = true := by decide +kernel
  obtain ⟨⟨k, h⟩, hs, hfacts⟩ := (Option.any_eq_true _ _).mp hrun
  obtain ⟨hstale, hq, hlive⟩ := of_decide_eq_true hfacts
  obtain ⟨k₀, hk₀, hpath⟩ := Option.bind_eq_some_iff.mp hs
  have hstart : LinkReachable sampleBoot sampleLayout (k₀, Heap.tkmc_init_mbxcb sampleLayout sampleLinks) :=
    ⟨_, [], ⟨hk₀, sampleLinks, rfl⟩, .nil _⟩
  have hreach := linkRun_reachable hstart hpath
  have hring := (messages_sent_again hreach).1 0 hlive
  rw [hq] at hring
  exact ⟨k, h, hreach, hstale, hq, hring⟩

end TsukumoCore
