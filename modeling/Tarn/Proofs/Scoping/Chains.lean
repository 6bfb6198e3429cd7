import Tarn.Proofs.Likeness.Machines

/-! Scopes as chains of frames, each of which knows only the one around it. The frames around each
other form a forest as long as each new frame is put around by an older one. -/
namespace Tarn

/-- The frame around each frame, unless it is a root. -/
abbrev Parents := FrameId → Option FrameId

namespace Parents

/-- The scope is the whole chain from its first frame outward to a root. -/
inductive Chain (p : Parents) : Scope → Prop where
  | root {i} (h : p i = none) : Chain p [i]
  | inner {i j s} (h : p i = some j) (hs : Chain p (j :: s)) : Chain p (i :: j :: s)

/-- Each of the first `n` frames lies in an older one, if it lies in any. -/
def Forest (p : Parents) (n : Nat) : Prop := ∀ i < n, ∀ j, p i = some j → j < i

/-- Of the first `n` frames, only the global one lies in no other. -/
def OneRoot (p : Parents) (n : Nat) : Prop := ∀ i < n, p i = none → i = 0

/-- The scope is a chain of some of the first `n` frames. -/
structure Scoped (p : Parents) (n : Nat) (s : Scope) : Prop where
  chain : p.Chain s
  lt : ∀ i ∈ s, i < n

/-- With one more frame, the last one, inside the scope. -/
def push (p : Parents) (n : Nat) (outer : Scope) : Parents :=
  fun i => if i = n then outer.head? else p i

/-- What lies around the first `n` frames stays around them. -/
def Extends (p : Parents) (n : Nat) (p' : Parents) : Prop := ∀ i < n, p' i = p i

variable {p p' p'' : Parents} {n n' : Nat} {s t outer : Scope}

theorem Extends.refl : p.Extends n p := fun _ _ => rfl

theorem Extends.trans (h : p.Extends n p') (hn : n ≤ n') (h' : p'.Extends n' p'') :
    p.Extends n p'' :=
  fun i hi => (h' i (Nat.lt_of_lt_of_le hi hn)).trans (h i hi)

theorem extends_push : p.Extends n (p.push n outer) := fun _ hi => if_neg (Nat.ne_of_lt hi)

theorem push_self : p.push n outer n = outer.head? := if_pos rfl

theorem Chain.ne_nil (hs : p.Chain s) : s ≠ [] := by
  rintro rfl
  cases hs

theorem Chain.extends (hs : p.Chain s) (h : ∀ i ∈ s, p' i = p i) : p'.Chain s := by
  induction hs with
  | root hi => exact .root ((h _ List.mem_cons_self).trans hi)
  | inner hi _ ih =>
    obtain ⟨hhead, hrest⟩ := List.forall_mem_cons.1 h
    exact .inner (hhead.trans hi) (ih hrest)

/-- A chain goes on up to a root. -/
theorem Chain.ends (hs : p.Chain s) : ∃ i, s.getLast? = some i ∧ p i = none := by
  induction hs with
  | root hi => exact ⟨_, rfl, hi⟩
  | inner _ _ ih =>
    obtain ⟨i, hlast, hi⟩ := ih
    exact ⟨i, by rw [List.getLast?_cons_cons, hlast], hi⟩

namespace Scoped

theorem mono (hs : p.Scoped n s) (h : p.Extends n p') (hn : n ≤ n') : p'.Scoped n' s :=
  ⟨hs.chain.extends fun i hi => h i (hs.lt i hi), fun i hi => Nat.lt_of_lt_of_le (hs.lt i hi) hn⟩

/-- The last frame, with what it was put in. -/
theorem push (hs : p.Scoped n s) : (p.push n s).Scoped (n + 1) (n :: s) := by
  have hold : (p.push n s).Scoped (n + 1) s := hs.mono extends_push (Nat.le_succ n)
  refine ⟨?_, List.forall_mem_cons.2 ⟨Nat.lt_succ_self n, hold.lt⟩⟩
  cases s with
  | nil => cases hs.chain
  | cons i s => exact .inner push_self hold.chain

/-- What is around the first frame is a scope of its own. -/
theorem tail (hs : p.Scoped n s) (hne : s.tail ≠ []) : p.Scoped n s.tail := by
  cases hs with | mk hchain hlt =>
  cases hchain with
  | root => exact absurd rfl hne
  | inner _ hchain => exact ⟨hchain, fun i hi => hlt i (List.mem_cons_of_mem _ hi)⟩

/-- A frame that is put in no other is a root. -/
theorem newRoot : (p.push n []).Scoped (n + 1) [n] :=
  ⟨.root push_self, fun _ hi => List.mem_singleton.1 hi ▸ Nat.lt_succ_self n⟩

/-- On the way outward the frames get older, so none comes twice. -/
theorem sorted (hs : p.Scoped n s) (hp : p.Forest n) : s.Pairwise (· > ·) := by
  obtain ⟨hchain, hlt⟩ := hs
  induction hchain with
  | root => exact List.pairwise_singleton _ _
  | @inner i j s hi _ ih =>
    obtain ⟨hin, hrest⟩ := List.forall_mem_cons.1 hlt
    have hj : j < i := hp i hin j hi
    have hsorted := ih hrest
    refine List.pairwise_cons.2 ⟨List.forall_mem_cons.2 ⟨hj, fun k hk => ?_⟩, hsorted⟩
    exact Nat.lt_trans (List.rel_of_pairwise_cons hsorted hk) hj

theorem nodup (hs : p.Scoped n s) (hp : p.Forest n) : s.Nodup :=
  (hs.sorted hp).imp Nat.ne_of_gt

theorem getLast?_eq (hs : p.Scoped n s) (hp : p.OneRoot n) : s.getLast? = some 0 := by
  obtain ⟨i, hlast, hi⟩ := hs.chain.ends
  rw [hlast, hp i (hs.lt i (List.mem_of_getLast? hlast)) hi]

end Scoped

theorem Forest.push (hp : p.Forest n) (hs : ∀ i ∈ outer, i < n) : (p.push n outer).Forest (n + 1) := by
  intro i hi j hj
  obtain rfl | hi := Nat.eq_or_lt_of_le (Nat.le_of_lt_succ hi)
  · rw [push_self] at hj
    exact hs j (List.mem_of_head? hj)
  · rw [extends_push i hi] at hj
    exact hp i hi j hj

theorem OneRoot.push (hp : p.OneRoot n) (hne : outer ≠ []) : (p.push n outer).OneRoot (n + 1) := by
  intro i hi hroot
  obtain rfl | hi := Nat.eq_or_lt_of_le (Nat.le_of_lt_succ hi)
  · rw [push_self, List.head?_eq_none_iff] at hroot
    exact absurd hroot hne
  · rw [extends_push i hi] at hroot
    exact hp i hi hroot

end Parents

/-- How a search for the nearest binding of a name ends. -/
inductive Ending where
  | found (i : FrameId)
  | unbound
  /-- The search comes upon a frame that it has taken hold of already. -/
  | stuck

def Ending.ofOwner : Option FrameId → Ending
  | some i => .found i
  | none => .unbound

namespace Environment

/-- `Search env p name held i path ending`: a search for the name goes from the frame `i` outward,
while it holds the frames `held`. It takes hold of the frames `path`, one after the other, and lets
none go before it has ended. -/
inductive Search (env : Environment) (p : Parents) (name : Name) :
    List FrameId → FrameId → List FrameId → Ending → Prop where
  | stuck {held i} (h : i ∈ held) : Search env p name held i [] .stuck
  | found {held i} (h : i ∉ held) (hi : (env.frame i).binds name = true) :
      Search env p name held i [i] (.found i)
  | unbound {held i} (h : i ∉ held) (hi : (env.frame i).binds name = false) (hp : p i = none) :
      Search env p name held i [i] .unbound
  | outward {held i j path ending} (h : i ∉ held) (hi : (env.frame i).binds name = false)
      (hp : p i = some j) (hj : Search env p name (i :: held) j path ending) :
      Search env p name held i (i :: path) ending

variable {env : Environment} {p : Parents} {name : Name} {held : List FrameId} {i : FrameId}
  {s : Scope}

/-- A search can go only one way. -/
theorem Search.unique {path path' : List FrameId} {ending ending' : Ending}
    (h : env.Search p name held i path ending) (h' : env.Search p name held i path' ending') :
    path' = path ∧ ending' = ending := by
  induction h generalizing path' with
  | stuck h =>
    cases h' with
    | stuck => exact ⟨rfl, rfl⟩
    | found h' | unbound h' | outward h' => exact absurd h h'
  | found h hi =>
    cases h' with
    | stuck h' => exact absurd h' h
    | found => exact ⟨rfl, rfl⟩
    | unbound _ hi' | outward _ hi' =>
      rw [hi] at hi'
      cases hi'
  | unbound h hi hp =>
    cases h' with
    | stuck h' => exact absurd h' h
    | found _ hi' =>
      rw [hi] at hi'
      cases hi'
    | unbound => exact ⟨rfl, rfl⟩
    | outward _ _ hp' =>
      rw [hp] at hp'
      cases hp'
  | outward h hi hp _ ih =>
    cases h' with
    | stuck h' => exact absurd h' h
    | found _ hi' =>
      rw [hi] at hi'
      cases hi'
    | unbound _ _ hp' =>
      rw [hp] at hp'
      cases hp'
    | outward _ _ hp' hj =>
      obtain rfl := Option.some.inj (hp.symm.trans hp')
      obtain ⟨rfl, hending⟩ := ih hj
      exact ⟨rfl, hending⟩

theorem owner?_cons (env : Environment) (i : FrameId) (s : Scope) (name : Name) :
    env.owner? (i :: s) name =
      if (env.frame i).binds name = true then some i else env.owner? s name := by
  rw [owner?, List.find?_cons]
  cases (env.frame i).binds name <;> rfl

/-- Along a chain in which no frame comes twice, a search takes hold of the frames up to the first
that binds the name. -/
theorem exists_search (hs : p.Chain (i :: s)) (hnodup : (i :: s).Nodup)
    (hheld : ∀ j ∈ i :: s, j ∉ held) (name : Name) :
    ∃ path, path <+: i :: s ∧
      env.Search p name held i path (.ofOwner (env.owner? (i :: s) name)) := by
  induction s generalizing i held with
  | nil =>
    cases hs with | root hroot =>
    have hi := hheld i List.mem_cons_self
    rw [owner?_cons]
    rcases hbinds : (env.frame i).binds name with _ | _
    · exact ⟨[i], List.prefix_rfl, .unbound hi hbinds hroot⟩
    · exact ⟨[i], List.prefix_rfl, .found hi hbinds⟩
  | cons j s ih =>
    cases hs with | inner hparent hs =>
    have hi := hheld i List.mem_cons_self
    rw [owner?_cons]
    rcases hbinds : (env.frame i).binds name with _ | _
    · obtain ⟨hnotin, hnodup⟩ := List.nodup_cons.1 hnodup
      -- The frame `i` is held from here on.
      have hheld' : ∀ k ∈ j :: s, k ∉ i :: held := by
        rintro k hk hkheld
        obtain rfl | hkheld := List.mem_cons.1 hkheld
        · exact hnotin hk
        · exact hheld k (List.mem_cons_of_mem _ hk) hkheld
      obtain ⟨path, hpath, hsearch⟩ := ih hs hnodup hheld'
      exact ⟨i :: path, (List.prefix_cons_inj i).2 hpath, .outward hi hbinds hparent hsearch⟩
    · exact ⟨[i], ⟨j :: s, rfl⟩, .found hi hbinds⟩

end Environment

namespace Parents

/-- The scope is a parent chain without repetition. From its first frame outward a search for a name
ends, in one way only: it takes hold of frames of the scope, of each at most once, and finds the
nearest binding if there is one. -/
structure Sound (p : Parents) (env : Environment) (s : Scope) : Prop where
  chain : p.Chain s
  nodup : s.Nodup
  search (name : Name) : ∃ i path, s.head? = some i ∧ path <+: s ∧ path.Nodup ∧
    ∀ path' ending, env.Search p name [] i path' ending ↔
      path' = path ∧ ending = .ofOwner (env.owner? s name)

theorem Scoped.sound {p : Parents} {n : Nat} {s : Scope} (hs : p.Scoped n s) (hp : p.Forest n)
    (env : Environment) : p.Sound env s := by
  have hnodup := hs.nodup hp
  refine ⟨hs.chain, hnodup, fun name => ?_⟩
  cases s with
  | nil => cases hs.chain
  | cons i s =>
    obtain ⟨path, hpath, hsearch⟩ : ∃ path, path <+: i :: s ∧
        env.Search p name [] i path (.ofOwner (env.owner? (i :: s) name)) :=
      Environment.exists_search hs.chain hnodup (fun _ _ => List.not_mem_nil) name
    refine ⟨i, path, rfl, hpath, hnodup.sublist hpath.sublist, fun path' ending => ?_⟩
    constructor
    · exact hsearch.unique
    · rintro ⟨rfl, rfl⟩
      exact hsearch

end Parents

end Tarn
