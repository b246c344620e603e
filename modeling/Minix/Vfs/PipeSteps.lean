/-
  Vfs/PipeSteps.lean --- the steps of `rw_pipe` and `read_write`.
-/
import Minix.Vfs.CallSteps

set_option autoImplicit false

namespace Minix.Vfs.State

open Foundation

variable {v : VnodeNr} {fd : Int} {k : Fd} {n : FilpNr}

variable {s s' s'' : State} {C : Cause → Prop} {p : ProcNr}

/-- `pipe_check` at most wakes processes up. -/
theorem Refs.pipeCheck_wakes (h : s.Refs) (hv : (s.vnode v).type = .fifo) (rw : Rw) (nonblock : Bool)
    (bytes pos : Int) (notouch : Bool) : Wakes (fun _ => False) s (s.pipeCheck v rw nonblock bytes pos notouch).2 := by
  have hwrite : ∀ k, Wakes (fun _ => False) s (s.release v .write k) := fun k => h.release_wakes hv (by simp)
  have hread : ∀ k, Wakes (fun _ => False) s (s.release v .read k) := fun k => h.release_wakes hv (by simp)
  unfold pipeCheck
  rcases rw with _ | _
  · simp only []
    split
    · split
      · simp only []
        split
        · exact hwrite _
        · exact .refl
      · exact .refl
    · exact .refl
  · simp only []
    split
    · exact .refl
    split
    · split
      · split
        · exact .refl
        split
        · split
          · exact .refl
          · exact hread _
        · exact .refl
      · split
        · split
          · exact .refl
          · exact hread _
        · exact .refl
    · split
      · exact hread _
      · exact .refl

/-- A request to the pipe file system touches nothing else. -/
theorem pfsReadwrite_eq (s : State) (p : ProcNr) (v : VnodeNr) (ino : Nat) (rw : Rw) (pos n buf : Int) (c : Copy) :
    ∃ pfs log, (s.pfsReadwrite p v ino rw pos n buf c).2 = { s with pfs := pfs, log := log } := by
  unfold pfsReadwrite
  rcases s.pfs ino with _ | x
  · exact ⟨s.pfs, s.log, rfl⟩
  rcases rw with _ | _
  · exact ⟨_, _, rfl⟩
  · simp only []
    split
    · exact ⟨s.pfs, _, rfl⟩
    · exact ⟨_, _, rfl⟩

theorem Vnode.moved_same (x : Vnode) (rw : Rw) (pos : Int) : (x.moved rw pos).type = x.type ∧ (x.moved rw pos).fs = x.fs ∧
    (x.moved rw pos).refCount = x.refCount ∧ (x.moved rw pos).pipe = x.pipe ∧ (x.moved rw pos).mapped = x.mapped ∧
    (x.moved rw pos).inode = x.inode := by
  unfold Vnode.moved
  rcases rw with _ | _
  · simp only []
    split <;> exact ⟨rfl, rfl, rfl, rfl, rfl, rfl⟩
  · exact ⟨rfl, rfl, rfl, rfl, rfl, rfl⟩

theorem transfer_eq (s : State) (p : ProcNr) (v : VnodeNr) (ino : Nat) (rw : Rw) (pos n buf : Int) (c : Copy) :
    ∃ pfs log k, (s.transfer p v ino rw pos n buf c).2 =
      State.setVnode { s with pfs := pfs, log := log } v ((s.vnode v).moved rw k) := by
  obtain ⟨pfs, log, heq⟩ := s.pfsReadwrite_eq p v ino rw pos n buf c
  unfold transfer
  generalize s.pfsReadwrite p v ino rw pos n buf c = out at heq
  obtain ⟨a, s1⟩ := out
  obtain rfl : s1 = _ := heq
  exact ⟨pfs, log, _, rfl⟩

theorem Refs.transfer (h : s.Refs) (p : ProcNr) (v : VnodeNr) (ino : Nat) (rw : Rw) (pos n buf : Int) (c : Copy) :
    (s.transfer p v ino rw pos n buf c).2.Refs ∧ (s.transfer p v ino rw pos n buf c).2.proc = s.proc ∧
      (s.transfer p v ino rw pos n buf c).2.filp = s.filp ∧
      ∀ w, ((s.transfer p v ino rw pos n buf c).2.vnode w).type = (s.vnode w).type := by
  obtain ⟨pfs, log, k, heq⟩ := s.transfer_eq p v ino rw pos n buf c
  rw [heq]
  obtain ⟨h1, h2, h3, h4, h5, -⟩ := Vnode.moved_same (s.vnode v) rw k
  have hfile : ∀ w, ((State.setVnode { s with pfs := pfs, log := log } v ((s.vnode v).moved rw k)).vnode w).type =
      (s.vnode w).type ∧ ((State.setVnode { s with pfs := pfs, log := log } v ((s.vnode v).moved rw k)).vnode w).refCount =
      (s.vnode w).refCount ∧ ((State.setVnode { s with pfs := pfs, log := log } v ((s.vnode v).moved rw k)).vnode w).pipe =
      (s.vnode w).pipe ∧ ((State.setVnode { s with pfs := pfs, log := log } v ((s.vnode v).moved rw k)).vnode w).mapped =
      (s.vnode w).mapped ∧ ((State.setVnode { s with pfs := pfs, log := log } v ((s.vnode v).moved rw k)).vnode w).fs =
      (s.vnode w).fs := by
    intro w
    by_cases hw : w = v
    · subst hw
      rw [setVnode_vnode_self]
      exact ⟨h1, h3, h4, h5, h2⟩
    · rw [setVnode_vnode_of_ne hw]
      exact ⟨rfl, rfl, rfl, rfl, rfl⟩
  exact ⟨h.of_quiet { SameRefs.refl s with file := hfile } rfl, rfl, rfl, fun w => (hfile w).1⟩

/-- A process waits in a pipe. -/
theorem Refs.call_pipeSuspend (h : s.Refs) (hp : s.Idle p) (rw : Rw) (buf size : Int)
    (hk : fdOf fd = some k) (hn : (s.proc p).fds k = some n) (hv : (s.filp n).vnode = some v) (htype : (s.vnode v).type = .fifo) :
    CallSteps C s p (none, s.pipeSuspend p rw fd buf size) := by
  have hproc : (s.pipeSuspend p rw fd buf size).proc p =
      { s.proc p with blockedOn := .pipe, saved := ⟨fd, rw.call, buf, size⟩ } := setProc_proc_self ..
  refine .suspended (.single (.waitPipe p rw fd buf size hp) ?_) (by rw [hproc])
  have hcount : ({ s with suspCount := s.suspCount + 1 } : State).Refs := h.of_quiet { SameRefs.refl s with } rfl
  refine hcount.setProc rfl rfl rfl ?_
  change (s.pipeSuspend p rw fd buf size).Waits p
  unfold Waits
  simp only [hproc]
  refine ⟨by cases rw <;> simp [Rw.call], v, ?_, htype⟩
  unfold savedVnode
  simp only [hproc, hk, Option.bind_some, hn]
  exact hv

theorem Refs.steps_partly (h : s.Refs) (hp : s.Idle p) (n : Int) :
    Steps C s (s.setProc p { s.proc p with cumIoPartial := n }) ∧ (s.setProc p { s.proc p with cumIoPartial := n }).Idle p := by
  refine ⟨.single (.partly p n hp) (h.setProc_waiting rfl rfl rfl rfl rfl rfl), ?_⟩
  unfold Idle live
  rw [setProc_proc_self]
  exact hp

section Pipe

variable {rw : Rw} {fd : Int} {k : Fd} {n : FilpNr} {v : VnodeNr}

variable (h : s.Refs) (hp : s.Idle p) (hk : fdOf fd = some k) (hn : (s.proc p).fds k = some n)
include h hp hk hn

theorem Refs.rwPipeIo_steps (hv : (s.filp n).vnode = some v) (htype : (s.vnode v).type = .fifo) (nonblock : Bool) (buf req size : Int) {pos : Int}
    (hpos : pos = (s.vnode v).pipePos rw) (c : Copy) :
    CallSteps C s p (s.rwPipeIo p rw fd nonblock v buf req pos size c) := by
  have hcount := h.count_pos hn
  obtain ⟨-, hmapped⟩ := h.piped v (h.refCount_pos hcount hv) htype
  obtain ⟨ino, hino⟩ := Option.isSome_iff_exists.mp hmapped
  unfold rwPipeIo
  rw [hino]
  simp only []
  have hop : Op C s (s.transfer p v ino rw pos size buf c).2 := .transfer p n v ino rw pos size buf c hp ⟨hcount, hv⟩ hino hpos
  obtain ⟨hrefs, hproc, hfilp, hvnode⟩ := h.transfer p v ino rw pos size buf c
  generalize s.transfer p v ino rw pos size buf c = out at hop hrefs hproc hfilp hvnode
  obtain ⟨a, s1⟩ := out
  have hp1 : s1.Idle p := hp.congr (by rw [hproc])
  have hsteps : Steps C s s1 := .single hop hrefs
  split
  · split
    · obtain ⟨hpart, hp2⟩ := hrefs.steps_partly (C := C) hp1 ((s1.proc p).cumIoPartial + if 0 ≤ a.r then a.nbytes else 0)
      refine .of_steps (hsteps.trans hpart) ?_ ((hpart.refs hrefs).call_pipeSuspend hp2 rw _ _ hk (n := n) (v := v) ?_ ?_ ?_)
      · rw [setProc_proc_self, hproc]
      · rw [setProc_proc_self, hproc]
        exact hn
      · show (s1.filp n).vnode = some v
        rw [hfilp]
        exact hv
      · exact (hvnode v).trans htype
    · obtain ⟨hpart, hp2⟩ := hrefs.steps_partly (C := C) hp1 0
      refine .done (hsteps.trans hpart) hp2 ?_
      rw [setProc_proc_self, hproc]
  · exact .done hsteps hp1 (by rw [hproc])

theorem Refs.rwPipe_steps (htype : ∀ v, (s.filp n).vnode = some v → (s.vnode v).type = .fifo) (buf req : Int) (c : Copy) :
    CallSteps C s p (s.rwPipe p rw fd n buf req c) := by
  unfold rwPipe
  rcases hv : (s.filp n).vnode with _ | v
  · exact .refl hp
  simp only []
  have hfifo := htype v hv
  generalize hpos : (s.vnode v).pipePos rw = pos
  have hrun := h.pipeCheck_wakes hfifo rw (s.filp n).nonblock req pos false
  generalize s.pipeCheck v rw (s.filp n).nonblock req pos false = out at hrun
  obtain ⟨r, s1⟩ := out
  obtain ⟨hrefs, hframe⟩ := h.wakes hrun
  have hsteps : Steps C s s1 := h.steps_wakes hrun
  have hsame : s.SameRefs s1 := Wakes.sameRefs hrun fun _ hf => hf
  have hproc : s1.proc p = s.proc p := (hframe.proc p).idle hp.2
  have hp1 : s1.Idle p := hp.congr hproc
  have hn1 : (s1.proc p).fds k = some n := by
    rw [hproc]
    exact hn
  have hv1 : (s1.filp n).vnode = some v := (hsame.vnode n).trans hv
  have hfifo1 : (s1.vnode v).type = .fifo := (hframe.vnode v).file.1.trans hfifo
  have hpos1 : pos = (s1.vnode v).pipePos rw := by
    rw [← hpos]
    cases rw
    · exact (hframe.vnode v).pos.1.symm
    · exact (hframe.vnode v).pos.2.symm
  have hio := fun size => rwPipeIo_steps (C := C) (s := s1) hrefs hp1 hk hn1 hv1 hfifo1 (s.filp n).nonblock buf req size hpos1 c
  have hend : (s1.proc p).endpoint = (s.proc p).endpoint := by rw [hproc]
  rcases r with _ | r
  · exact .of_steps hsteps hend (hrefs.call_pipeSuspend hp1 rw buf req hk hn1 hv1 hfifo1)
  simp only []
  split
  · exact .done hsteps hp1 hend
  split
  · rename_i hcut
    split_ifs with hmax
    · refine .of_steps hsteps hend (hrefs.call_panic hp1 ?_ _)
      obtain ⟨-, hmapped⟩ := hrefs.piped v (hrefs.refCount_pos (hrefs.count_pos hn1) hv1) hfifo1
      refine ⟨v, hrefs.refCount_pos (hrefs.count_pos hn1) hv1, hmapped, ?_⟩
      rw [hpos1, hcut.1] at hmax
      exact hmax
    · exact .of_steps hsteps hend (hio _)
  · exact .of_steps hsteps hend (hio _)

end Pipe

/-! ## Files -/

theorem toNat_ofInt_u32 {n : Int} : (BitVec.ofInt 64 (u32 n)).toNat < 2 ^ 32 := by
  have h1 : 0 ≤ u32 n := Int.emod_nonneg _ (by decide)
  have h2 : u32 n < 2 ^ 32 := Int.emod_lt_of_pos _ (by decide)
  rw [BitVec.toNat_ofInt]
  omega

variable (h : s.Refs) (hp : s.Idle p)
include h hp

/-- A file that is neither a pipe nor special. -/
theorem Refs.ioFile_steps (hn : 0 < (s.filp n).count)
    (hv : (s.filp n).vnode = some v) (htype : ¬ (s.vnode v).type.special) (rw : Rw) (reply : FsReply) :
    CallSteps C s p (s.ioFile rw n v reply) := by
  unfold ioFile
  simp only []
  generalize hpos : (if rw = .writing ∧ (s.filp n).append = true then BitVec.ofInt 64 (u32 (s.vnode v).size) else (s.filp n).pos) = pos
  split
  · rename_i hlarge
    have hwhy : s.Reason .posTooLarge := by
      refine ⟨n, v, hn, hv, htype, ?_⟩
      rw [← hpos] at hlarge
      split at hlarge
      · exact absurd (Nat.div_eq_of_lt toNat_ofInt_u32) hlarge
      · exact div_ne_zero_le hlarge
    exact h.call_panic hp hwhy _
  · generalize hpos1 : (if reply.r = 0 then reply.pos.setWidth 64 else pos : BitVec 64) = pos1
    have hlt : pos1.toNat < 2 ^ 32 := by
      rw [← hpos1]
      split
      · rw [BitVec.toNat_setWidth]
        omega
      · omega
    have hzero : pos1.toNat / 2 ^ 32 = 0 := Nat.div_eq_of_lt hlt
    rw [if_neg (fun hbad => hbad.2 hzero), if_neg (fun hbad => hbad.2 hzero)]
    -- The size grows with the position.
    generalize hs1 : (if decide (rw = .writing ∧ ((s.vnode v).type = .regular ∨ (s.vnode v).type = .directory) ∧
      u32 (s.vnode v).size < pos1.toNat) = true then s.setSize v (i32 pos1.toNat) else s) = s1
    have hsteps : Steps C s s1 ∧ s1.proc = s.proc := by
      rw [← hs1]
      split_ifs with hgrows
      · refine ⟨h.steps_size (fun hfifo => ?_) fun _ hi => absurd rfl hi, rfl⟩
        simp [hfifo] at hgrows
      · exact ⟨.refl s, rfl⟩
    exact .of_steps hsteps.1 (by rw [hsteps.2]) ((hsteps.1.refs h).call_filp (hp.congr (by rw [hsteps.2]))
      (n := n) (f := { s1.filp n with pos := pos1 }) ⟨rfl, rfl, rfl⟩ (.inr (.inl hlt)) _)

/-- The position of a special file may be anything. -/
theorem Refs.call_special (hv : (s.filp n).vnode = some v)
    (htype : (s.vnode v).type.special) (pos : BitVec 64) (r : Option Int) :
    CallSteps C s p (r, s.setFilp n { s.filp n with pos := pos }) := by
  refine h.call_filp hp (n := n) (f := { s.filp n with pos := pos }) ⟨rfl, rfl, rfl⟩
    (.inr (.inr (.inl fun w hw => ?_))) r
  obtain rfl : v = w := Option.some.inj (hv.symm.trans hw)
  exact htype

theorem Refs.ioChar_steps (hk : fdOf fd = some k)
    (hn : (s.proc p).fds k = some n) (hv : (s.filp n).vnode = some v) (htype : (s.vnode v).type = .charSpecial) (rw : Rw)
    (buf nbytes : Int) (a : DevReply) : CallSteps C s p (s.ioChar p rw fd n (s.vnode v) buf nbytes a) := by
  unfold ioChar
  simp only []
  obtain ⟨hcall, hrest⟩ := h.devIo_steps (C := C) hp (s.vnode v).sdev (s.filp n).nonblock (isAsync (s.vnode v).sdev)
    (s.filp n).needsReopen ⟨fd, rw.call, buf, nbytes⟩ a fun k' n' v' hk' hn' hv' => by
      obtain rfl : k = k' := Option.some.inj (hk.symm.trans hk')
      obtain rfl : n = n' := Option.some.inj (hn.symm.trans hn')
      obtain rfl : v = v' := Option.some.inj (hv.symm.trans hv')
      exact .inl htype
  generalize s.devIo p (s.vnode v).sdev (s.filp n).nonblock (isAsync (s.vnode v).sdev) (s.filp n).needsReopen
    ⟨fd, rw.call, buf, nbytes⟩ a = out at hcall hrest
  obtain ⟨r, s1⟩ := out
  rcases r with _ | r
  · exact hcall
  obtain ⟨hfilp, hvnode⟩ := hrest rfl
  simp only [] at hfilp hvnode ⊢
  split
  · exact .of_steps hcall.steps hcall.endpoint ((hcall.steps.refs h).call_special (hcall.idle rfl) (v := v)
      (by simp only [hfilp]; exact hv) (by simp only [hvnode]; exact .inl htype) _ _)
  · exact hcall

theorem Refs.readWrite_steps (rw : Rw) (fd buf nbytes : Int) (env : IoEnv) :
    CallSteps C s p (s.readWrite p rw fd buf nbytes env) := by
  unfold readWrite
  split
  · exact .refl hp
  rcases hget : s.getFilp p fd with r | ⟨k, n⟩
  · exact .refl hp
  obtain ⟨hk, hn⟩ := getFilp_eq_ok hget
  have hcount := h.count_pos hn
  simp only []
  split
  · exact .refl hp
  split
  · exact .refl hp
  rcases hv : (s.filp n).vnode with _ | v
  · exact .refl hp
  simp only []
  split
  · rename_i hpipe
    split
    · rename_i hcum
      have hwhy : s.Reason .partialNotClear := ⟨p, hp, hcum⟩
      exact h.call_panic hp hwhy _
    · -- The call is noted if it writes.
      generalize hs1 : (if rw = .writing then { s with log := .writeCall p nbytes :: s.log } else s : State) = s1
      have hsteps : Steps C s s1 ∧ s1.proc = s.proc ∧ s1.filp = s.filp ∧ s1.vnode = s.vnode := by
        rw [← hs1]
        split
        · exact ⟨.single (.writeCall p nbytes hp) (h.of_quiet { SameRefs.refl s with } rfl), rfl, rfl, rfl⟩
        · exact ⟨.refl s, rfl, rfl, rfl⟩
      obtain ⟨hsteps, hproc, hfilp, hvnode⟩ := hsteps
      refine .of_steps hsteps (by rw [hproc]) ((hsteps.refs h).rwPipe_steps (hp.congr (by rw [hproc])) hk (by rw [hproc]; exact hn) ?_
        buf nbytes env.copy)
      intro w hw
      rw [hfilp, hv] at hw
      obtain rfl := Option.some.inj hw
      rw [hvnode]
      exact h.fifo v hpipe
  · have hfile := fun htype => h.ioFile_steps (C := C) hp hcount hv htype rw env.file
    rcases htype : (s.vnode v).type with _ | _ | _ | _ | _ | _
    · exact hfile (by simp [htype, FileType.special])
    · exact hfile (by simp [htype, FileType.special])
    · exact h.ioChar_steps hp hk hn hv htype rw buf nbytes env.device
    · exact h.call_special hp hv (.inr htype) _ _
    · exact hfile (by simp [htype, FileType.special])
    · exact hfile (by simp [htype, FileType.special])

end Minix.Vfs.State
