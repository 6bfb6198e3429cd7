import Tarn.Proofs.Unnamed.Sessions

/-! A global that no text names. Nothing that a session gives away shows whether it is bound, nor to
what. -/
namespace Tarn

/-- The numbers from `k` on are `d` more. -/
def shift (k d i : Nat) : Nat := if i < k then i else i + d

theorem shift_of_lt {k d i : Nat} (h : i < k) : shift k d i = i := if_pos h

theorem shift_of_le {k d i : Nat} (h : k ≤ i) : shift k d i = i + d := if_neg (Nat.not_lt.2 h)

theorem shift_injective (k d : Nat) : Function.Injective (shift k d) := by
  intro i j h
  unfold shift at h
  split at h <;> split at h <;> omega

/-- The value is no function, or one whose body names only what `used` says, or one of the host's
first `size` functions. -/
def Value.Fits (used : Name → Prop) (size : Nat) : Value → Prop
  | .function f => AllNames used f.decl.body.names
  | .native f => f.id < size
  | _ => True

namespace Value.Fits

variable {used used' : Name → Prop} {size size' : Nat} {v : Value}

theorem mono (h : v.Fits used size) (hused : ∀ n, used n → used' n) (hsize : size ≤ size') :
    v.Fits used' size' := by
  cases v with
  | function f => exact AllNames.mono h hused
  | native f => exact Nat.lt_of_lt_of_le h hsize
  | nil | bool | number | string => trivial

theorem renumbered {place : Nat → Nat} (h : v.Fits used size) (hplace : ∀ i < size, place i = i) :
    Value.Renumbered (fun f => AllNames used f.decl.body.names) place v v := by
  cases v with
  | function f => exact .function f h
  | native f =>
    have hnative : Value.Renumbered (fun f => AllNames used f.decl.body.names) place (.native f)
        (.native { f with id := place f.id }) := .native f
    rwa [hplace f.id h] at hnative
  | nil | bool | number | string => exact .of_data trivial

/-- A function of the host keeps its number just if it is one of the first. -/
theorem of_renumbered
    (h : Value.Renumbered (fun f => AllNames used f.decl.body.names) (shift size 1) v v) :
    v.Fits used size := by
  cases v with
  | function f =>
    cases h with
    | function _ hf => exact hf
  | native f =>
    by_contra hlarge
    have hmoved : ∀ {w}, Value.Renumbered (fun f => AllNames used f.decl.body.names)
        (shift size 1) (.native f) w → w = .native { f with id := f.id + 1 } := by
      rintro _ ⟨⟩
      rw [shift_of_le (Nat.not_lt.1 hlarge)]
    have hid := congrArg Native.id (Value.native.inj (hmoved h))
    exact absurd hid (Nat.ne_add_one f.id)
  | nil | bool | number | string => trivial

end Value.Fits

/-- Where a name was bound, every value that is found was there before or is the one just bound. -/
theorem Environment.eq_or_find?_of_bindAt {env : Environment} {i j : FrameId} {n k : Name}
    {v w : Value} (h : ((env.bindAt i n v).frame j).find? k = some w) :
    w = v ∨ (env.frame j).find? k = some w := by
  rw [frame_bindAt] at h
  split at h
  · rw [Frame.find?_bind] at h
    split at h
    · exact .inl (Option.some.inj h).symm
    · exact .inr h
  · exact .inr h

theorem Frame.Beside.of_fixed {f f' : Frame} (hsame : ∀ n, S.used n → f'.find? n = f.find? n)
    (hfixed : ∀ n v, S.used n → f.find? n = some v → Value.Beside S v v) : Frame.Beside S f f' := by
  intro n hn
  rw [hsame n hn]
  rcases hv : f.find? n with _ | v
  · exact .none
  · exact .some (hfixed n v hn hv)

namespace Session

variable {x : String} {s s' : Session}

/-- No text that was run in the session names `x`: the functions that programs may come by do not
either. -/
structure Avoids (x : String) (s : Session) : Prop where
  alike : s.Alike s
  nonempty : 0 < s.machine.env.frames.size
  fits {i : FrameId} {n : Name} {v : Value} (hn : s.machine.names.Other x n)
    (hv : (s.machine.env.frame i).find? n = some v) :
    v.Fits (s.machine.names.Other x) s.machine.host.size
  generic : ∀ run ∈ s.machine.host, HostFunction.Generic run

/-- Only known names are bound. -/
theorem Alike.known (h : s.Alike s) {i : FrameId} {n : Name} {v : Value}
    (hv : (s.machine.env.frame i).find? n = some v) :
    ∃ text, s.machine.names.find? text = some n := by
  by_contra hunknown
  have hnone := (h.env.frame i).find?_eq_none (n := n) fun n' hn' => by
    obtain ⟨text, hn, -⟩ := hn'
    exact hunknown ⟨text, hn⟩
  cases hv.symm.trans hnone

theorem avoids_blank {m : Machine} (henv : m.env = {}) (hhost : m.host = #[]) (x : String) :
    Avoids x ⟨m⟩ := by
  refine ⟨blank_alike henv hhost m.names m.log, ?_, fun {i n v} _ hv => ?_, fun run hrun => ?_⟩
  · rw [henv]
    decide
  · rw [henv] at hv
    cases i <;> cases hv
  · rw [hhost] at hrun
    exact absurd hrun (Array.not_mem_empty run)

namespace Avoids

variable (h : s.Avoids x)
include h

theorem fits_of_extends {t : NameTable} (ht : s.machine.names.Extends t) {i : FrameId} {n : Name}
    {v : Value} (hn : t.Other x n) (hv : (s.machine.env.frame i).find? n = some v) :
    v.Fits (s.machine.names.Other x) s.machine.host.size := by
  obtain ⟨text, htext⟩ := h.alike.known hv
  refine h.fits ⟨text, ?_, htext⟩ hv
  rintro rfl
  exact hn.ne (ht text n htext) rfl

/-- The session when it knows more names. -/
theorem learned {t : NameTable} (ht : s.machine.names.Extends t) (log : Log) :
    Avoids x ⟨s.machine.learned t log⟩ := by
  refine ⟨alike_of_machines (h.alike.grow ht ht log log), h.nonempty, fun hn hv => ?_, h.generic⟩
  exact (h.fits_of_extends ht hn hv).mono (fun _ hk => hk.mono ht) (Nat.le_refl _)

theorem register {name : String} {arity : Nat} {run : HostFunction} (hrun : run.Uniform)
    (hgeneric : run.Generic) : (s.register name arity run).Avoids x := by
  have hextends := s.machine.names.extends_intern name
  refine ⟨h.alike.register name arity hrun, ?_, fun {i n v} hn hv => ?_, fun other hother => ?_⟩
  · exact (Array.size_modify ..).symm ▸ h.nonempty
  · have hsize : (s.register name arity run).machine.host.size = s.machine.host.size + 1 :=
      Array.size_push ..
    rw [hsize]
    obtain rfl | hv := Environment.eq_or_find?_of_bindAt (i := 0) hv
    · exact Nat.lt_succ_self _
    · have hfits := h.fits_of_extends hextends hn hv
      exact hfits.mono (fun _ hk => hk.mono hextends) (Nat.le_succ _)
  · obtain hother | rfl := Array.mem_push.1 hother
    · exact h.generic other hother
    · exact hgeneric

/-- The session next to itself when it knows more names. No numbers of the host's functions stay but
those that there are. -/
def alone (t : NameTable) : Surplus where
  names := s.machine.names
  used := t.Other x
  kept n := (s.machine.env.frame 0).find? n
  host := s.machine.host
  host' := s.machine.host
  place := shift s.machine.host.size 1
  injective := shift_injective _ _
  found i := by
    obtain hi | hi := Nat.lt_or_ge i s.machine.host.size
    · rw [shift_of_lt hi]
    · rw [shift_of_le hi, Array.getElem?_eq_none hi, Array.getElem?_eq_none (Nat.le_succ_of_le hi)]
  generic := h.generic

theorem beside_alone {t : NameTable} (ht : s.machine.names.Extends t) :
    s.Beside (h.alone t) s := by
  refine ⟨rfl, rfl, ⟨rfl, h.nonempty, fun i => ?_, rfl, fun _ => rfl⟩, rfl, rfl, rfl, rfl, rfl, rfl,
    rfl⟩
  refine .of_fixed (fun _ _ => rfl) fun n v hn hv => ?_
  have hfits := (h.fits_of_extends ht hn hv).mono (fun _ hk => hk.mono ht) (Nat.le_refl _)
  exact hfits.renumbered fun _ hi => shift_of_lt hi

theorem submit {y : Submission} (hy : x ∉ identifiers y.source) : (s.submit y).2.Avoids x := by
  obtain ⟨-, hran⟩ := (h.beside_alone (s.machine.extends_compile y.source)).submit y
    (s.machine.compile_other hy)
  have hnames : (s.submit y).2.machine.names = (s.compile y.source).2.machine.names := hran.names
  have hhost : (s.submit y).2.machine.host = s.machine.host := hran.host
  refine ⟨(h.alike.submit y).2, hran.env.nonempty, fun {i n v} hn hv => ?_, ?_⟩
  · rw [hnames] at hn ⊢
    rw [hhost]
    have hfound := hran.env.frame i n hn
    rw [hv] at hfound
    cases hfound with
    | some hv => exact .of_renumbered hv
  · rw [hhost]
    exact h.generic

theorem perform {act : Act} (hact : ∀ y, act = .submit y → x ∉ identifiers y.source)
    (hhost : ∀ name arity run, act = .register name arity run → run.Uniform ∧ run.Generic) :
    (s.perform act).2.Avoids x := by
  cases act with
  | submit y => exact h.submit (hact y rfl)
  | register name arity run =>
    obtain ⟨huniform, hgeneric⟩ := hhost name arity run rfl
    exact h.register huniform hgeneric
  | read source => exact h.learned (s.machine.extends_compile source) _
  | look name => exact h.learned (s.machine.names.extends_intern name) _

theorem carryOut {acts : List Act} (hacts : ∀ y, .submit y ∈ acts → x ∉ identifiers y.source)
    (hhost : ∀ name arity run, .register name arity run ∈ acts → run.Uniform ∧ run.Generic) :
    (s.carryOut acts).2.Avoids x := by
  induction acts generalizing s with
  | nil => exact h
  | cons act acts ih =>
    refine ih (h.perform ?_ ?_) (fun y hy => hacts y (.tail _ hy))
      fun name arity run hrun => hhost name arity run (.tail _ hrun)
    · rintro y rfl
      exact hacts y List.mem_cons_self
    · rintro name arity run rfl
      exact hhost name arity run List.mem_cons_self

end Avoids

end Session

namespace Machine

/-- Binds a name globally, to any value. The host may get more functions for it. -/
def withGlobal (m : Machine) (name : String) (v : Value) (more : Array HostFunction) : Machine :=
  let (n, names) := m.names.intern name
  { m with names, host := m.host ++ more, env := m.env.defineIn Environment.global n v }

/-- For instance a function of the host. -/
theorem defineNative_eq (m : Machine) (name : String) (arity : Nat) (run : HostFunction) :
    m.defineNative name arity run =
      m.withGlobal name (.native ⟨m.host.size, name, arity⟩) #[run] := by
  unfold defineNative withGlobal
  rw [Array.push_eq_append]

end Machine

namespace Session

variable {x : String} {v : Value} {s s' : Session}

def withGlobal (s : Session) (name : String) (v : Value) (more : Array HostFunction) : Session :=
  ⟨s.machine.withGlobal name v more⟩

/-- In the second session `x` is bound to `v`; but for that it is the first one. -/
structure Exceeds (x : String) (v : Value) (S : Surplus) (n : Name) (s s' : Session) : Prop where
  beside : s.Beside S s'
  name : S.names.find? x = some n
  used (k : Name) : S.used k ↔ k ≠ n
  kept : S.kept n = some v
  next (i : Nat) : S.place (S.host.size + i) = S.host'.size + i

/-- What is added when `x` is bound to `v` and the host gets more functions. -/
def Avoids.added (h : s.Avoids x) (n : Name) (v : Value) (more : Array HostFunction) : Surplus where
  names := s.machine.names
  used k := k ≠ n
  kept _ := some v
  host := s.machine.host
  host' := s.machine.host ++ more
  place := shift s.machine.host.size more.size
  injective := shift_injective _ _
  found i := by
    obtain hi | hi := Nat.lt_or_ge i s.machine.host.size
    · rw [shift_of_lt hi, Array.getElem?_append_left hi]
    · have hend : (s.machine.host ++ more).size ≤ i + more.size := by
        rw [Array.size_append]
        exact Nat.add_le_add_right hi _
      rw [shift_of_le hi, Array.getElem?_eq_none hi, Array.getElem?_eq_none hend]
  generic := h.generic

theorem Avoids.exceeds_withGlobal (h : s.Avoids x) {n : Name}
    (hn : s.machine.names.find? x = some n) (v : Value) (more : Array HostFunction) :
    Exceeds x v (h.added n v more) n s (s.withGlobal x v more) := by
  have hadded : (s.withGlobal x v more).machine = { s.machine with
      host := s.machine.host ++ more, env := s.machine.env.bindAt 0 n v } := by
    unfold withGlobal Machine.withGlobal
    rw [NameTable.intern_of_find? hn]
    rfl
  refine ⟨?_, hn, fun _ => Iff.rfl, rfl, fun i => ?_⟩
  · rw [Beside, hadded]
    refine ⟨rfl, rfl, ⟨?_, ?_, fun i => ?_, rfl, fun {k} hk => ?_⟩, rfl, rfl, rfl, rfl, rfl, rfl,
      rfl⟩
    · exact (Array.size_modify ..).symm
    · exact (Array.size_modify ..).symm ▸ h.nonempty
    · refine .of_fixed (fun k hk => ?_) fun k w hk hw => ?_
      · rw [Environment.frame_bindAt]
        split
        · rw [Frame.find?_bind, if_neg (Ne.symm hk)]
        · rfl
      · obtain ⟨text, htext⟩ := h.alike.known hw
        have hother : s.machine.names.Other x k := by
          refine ⟨text, ?_, htext⟩
          rintro rfl
          exact hk (Option.some.inj (htext.symm.trans hn))
        have hfits := (h.fits hother hw).mono (fun _ hk => hk.ne hn) (Nat.le_refl _)
        exact hfits.renumbered fun _ hi => shift_of_lt hi
    · obtain rfl : k = n := not_not.1 hk
      rw [Environment.frame_bindAt, if_pos ⟨rfl, h.nonempty⟩, Frame.find?_bind, if_pos rfl]
      rfl
  · change shift s.machine.host.size more.size (s.machine.host.size + i) =
      (s.machine.host ++ more).size + i
    rw [shift_of_le (Nat.le_add_right _ _), Array.size_append]
    exact Nat.add_right_comm _ _ _

namespace Exceeds

variable {S : Surplus} {n : Name} (h : Exceeds x v S n s s')
include h

theorem learned {t : NameTable} (ht : s.machine.names.Extends t) {r r' : Session}
    (hbeside : r.Beside (S.learned t) r') : Exceeds x v (S.learned t) n r r' :=
  ⟨hbeside, ht x n (h.beside.names ▸ h.name), h.used, h.kept, h.next⟩

theorem used_of_other {t : NameTable} (ht : s.machine.names.Extends t) {k : Name}
    (hk : t.Other x k) : S.used k :=
  (h.used k).2 (hk.ne (ht x n (h.beside.names ▸ h.name)))

theorem register {name : String} (hname : name ≠ x) (arity : Nat) {run : HostFunction}
    (hrun : run.Generic) :
    ∃ S', Exceeds x v S' n (s.register name arity run) (s'.register name arity run) := by
  have hextends := s.machine.names.extends_intern name
  have hused := h.used_of_other hextends ⟨name, hname, s.machine.names.find?_intern name⟩
  have hnext : S.place S.host.size = S.host'.size := h.next 0
  refine ⟨_, h.beside.register hused arity hrun hnext, ?_, h.used, h.kept, fun i => ?_⟩
  · exact hextends x n (h.beside.names ▸ h.name)
  · change S.place ((S.host.push run).size + i) = (S.host'.push run).size + i
    rw [Array.size_push, Array.size_push, Nat.add_assoc, Nat.add_assoc]
    exact h.next (1 + i)

theorem perform {act : Act} (hact : ∀ y, act = .submit y → x ∉ identifiers y.source)
    (hhost : ∀ name arity run, act = .register name arity run → name ≠ x ∧ run.Generic) :
    (s.perform act).1 = (s'.perform act).1 ∧
      ∃ S', Exceeds x v S' n (s.perform act).2 (s'.perform act).2 := by
  cases act with
  | submit y =>
    have hextends := s.machine.extends_compile y.source
    have hcode := (s.machine.compile_other (hact y rfl)).mono fun _ => h.used_of_other hextends
    obtain ⟨hanswer, hbeside⟩ := h.beside.submit y hcode
    exact ⟨congrArg some hanswer, _, h.learned hextends hbeside⟩
  | register name arity run =>
    obtain ⟨hname, hgeneric⟩ := hhost name arity run rfl
    exact ⟨rfl, h.register hname arity hgeneric⟩
  | read source =>
    exact ⟨rfl, _, h.learned (s.machine.extends_compile source) (h.beside.compile source)⟩
  | look name =>
    exact ⟨rfl, _, h.learned (s.machine.names.extends_intern name) (h.beside.global? name)⟩

/-- The binding is still there. -/
theorem global?_eq : (s'.global? x).1 = some v := by
  have hn : s'.machine.names.find? x = some n := h.beside.names' ▸ h.name
  have hv : (s'.machine.env.frame 0).find? n = some v :=
    (h.beside.env.kept fun hused => (h.used n).1 hused rfl).trans h.kept
  have howner : s'.machine.env.owner? Environment.global n = some 0 := by
    simp [Environment.owner?, Environment.global, Frame.binds, hv]
  simp only [Session.global?, Machine.global?, NameTable.intern_of_find? hn,
    Environment.lookupIn, howner, Option.bind_some, hv]

end Exceeds

/-- Whether `x` was known before does not matter to what it is bound to. -/
theorem withGlobal_global? (s : Session) (x : String) (v : Value) (more : Array HostFunction) :
    (s.global? x).2.withGlobal x v more = s.withGlobal x v more := by
  simp only [withGlobal, Machine.withGlobal, Session.global?, Machine.global?,
    NameTable.intern_of_find? (s.machine.names.find?_intern x)]

/-- A new session is a bare one in which `clock` is bound. -/
theorem start_eq (m : Machine) : start m = (⟨m⟩ : Session).withGlobal "clock"
    (.native ⟨m.host.size, "clock", 0⟩) #[HostFunction.clock] :=
  congrArg Session.mk (m.defineNative_eq "clock" 0 _)

/-- A session runs texts none of which has `x` as an identifier; it may stand in strings. Then it
does not show whether `x` was bound globally at some time, and to which value: all later texts come
out the same, with the same reports and the same lines printed. At the end the binding is what it
was. The functions of the host that are registered besides must not depend on how names and
functions of the host are numbered, and must not make functions of their own. -/
theorem unnamed_global_unobservable {m : Machine} (henv : m.env = {}) (hhost : m.host = #[])
    {x : String} {before after : List Act}
    (hunnamed : ∀ y, .submit y ∈ before ++ after → x ∉ identifiers y.source)
    (hdiscreet : ∀ name arity run, .register name arity run ∈ before ++ after →
      run.Uniform ∧ run.Generic)
    (hkept : ∀ arity run, .register x arity run ∉ after) (v : Value) (more : Array HostFunction) :
    let s := (carryOut ⟨m⟩ before).2
    let bound := s.withGlobal x v more
    (bound.carryOut after).1 = (s.carryOut after).1 ∧
      ((bound.carryOut after).2.global? x).1 = some v := by
  intro s bound
  have hs : s.Avoids x := (avoids_blank henv hhost x).carryOut
    (fun y hy => hunnamed y (List.mem_append_left _ hy))
    fun name arity run hrun => hdiscreet name arity run (List.mem_append_left _ hrun)
  have hlater (name : String) (arity : Nat) (run : HostFunction)
      (hrun : .register name arity run ∈ after) : run.Uniform ∧ run.Generic :=
    hdiscreet name arity run (List.mem_append_right _ hrun)
  -- First `x` becomes known, which changes numbers of names only; then it is bound.
  obtain ⟨hknown, -⟩ := (hs.alike.global?_right x).carryOut fun name arity run hrun =>
    (hlater name arity run hrun).1
  have hasked : (s.global? x).2.Avoids x :=
    hs.learned (s.machine.names.extends_intern x) s.machine.log
  have hexceeds := hasked.exceeds_withGlobal (s.machine.names.find?_intern x) v more
  rw [withGlobal_global?] at hexceeds
  generalize (s.machine.names.intern x).1 = n at hexceeds
  have hstep (act : Act) (hact : act ∈ after) {r r' : Session}
      (hr : ∃ S, Exceeds x v S n r r') : (r.perform act).1 = (r'.perform act).1 ∧
        ∃ S, Exceeds x v S n (r.perform act).2 (r'.perform act).2 := by
    obtain ⟨S, hr⟩ := hr
    refine hr.perform ?_ ?_
    · rintro y rfl
      exact hunnamed y (List.mem_append_right _ hact)
    · rintro name arity run rfl
      refine ⟨?_, (hlater name arity run hact).2⟩
      rintro rfl
      exact hkept arity run hact
  obtain ⟨hanswers, S, hend⟩ := carryOut_related hstep ⟨_, hexceeds⟩
  exact ⟨(hknown.trans hanswers).symm, hend.global?_eq⟩

/-- Texts that have `clock` in a string only, and another function of the host. -/
def quoting : List Act :=
  [.submit ⟨1, "first", "fun f() \x7b return \"clock\"; \x7d print f();", 0⟩,
    .register "now" 0 fun now _ => .ok (.number now),
    .submit ⟨1, "second", "print now; print now() == now; f + 1;", 0⟩]

/-- With `clock` and without it. -/
theorem unnamed_global_unobservable_quoting :
    let bare : Session := ⟨{}⟩
    ((start {}).carryOut quoting).1 = (bare.carryOut quoting).1 ∧
      (bare.carryOut quoting).1.map (fun answer => (answer.outcome, answer.printed)) =
        [(.ok, "clock\n"), (.runtimeError, "<native fn now>\nfalse\n")] ∧
      (((start {}).carryOut quoting).2.global? "clock").1 = some (.native ⟨0, "clock", 0⟩) := by
  intro bare
  have hunnamed (y : Submission) (hy : .submit y ∈ ([] : List Act) ++ quoting) :
      "clock" ∉ identifiers y.source := by
    simp only [quoting, List.nil_append, List.mem_cons, Act.submit.injEq, reduceCtorEq,
      List.not_mem_nil, or_false, false_or] at hy
    obtain rfl | rfl := hy <;> decide +kernel
  have hdiscreet (name : String) (arity : Nat) (run : HostFunction)
      (hrun : .register name arity run ∈ ([] : List Act) ++ quoting) :
      run.Uniform ∧ run.Generic := by
    simp only [quoting, List.nil_append, List.mem_cons, Act.register.injEq, reduceCtorEq,
      List.not_mem_nil, or_false, false_or] at hrun
    obtain ⟨-, -, rfl⟩ := hrun
    exact ⟨fun _ now _ _ _ => .ok (.number now), fun _ _ _ now _ _ _ => .ok (.number now)⟩
  have hkept (arity : Nat) (run : HostFunction) : .register "clock" arity run ∉ quoting := by
    simp [quoting]
  have hunobservable := unnamed_global_unobservable (m := {}) rfl rfl hunnamed hdiscreet hkept
    (.native ⟨0, "clock", 0⟩) #[HostFunction.clock]
  rw [start_eq]
  exact ⟨hunobservable.1, by decide +kernel, hunobservable.2⟩

end Session

end Tarn
