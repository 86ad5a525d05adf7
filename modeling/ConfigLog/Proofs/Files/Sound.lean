import ConfigLog.Proofs.Files.Opening

set_option autoImplicit false

/-! # Where files stand

A store is `Sound` when all entries stand in directories and no node has two names, and a new store
is (`sound_start`). Opening a file to append to it adds the directories above it and then the file
itself, so a path that has been opened once leads to the same place for as long as its directories
are there (`Ready`).
-/

namespace ConfigLog.Files.Store

variable {f g k : Store} {p q r : Place} {i j : Nat} {path target : String}

/-! ## Stores with the same entries -/

/-- The stores have the same entries with the same contents. -/
def Alike (f g : Store) : Prop := g.names = f.names ∧ g.nodes = f.nodes ∧ g.working = f.working

namespace Alike

theorem refl (f : Store) : Alike f f := ⟨rfl, rfl, rfl⟩

theorem trans (h : Alike f g) (h' : Alike g k) : Alike f k :=
  ⟨h'.1.trans h.1, h'.2.1.trans h.2.1, h'.2.2.trans h.2.2⟩

theorem node? (h : Alike f g) (p : Place) : g.node? p = f.node? p := by
  rw [Store.node?, Store.node?, h.1]

theorem isDirectory (h : Alike f g) (i : Nat) : g.isDirectory i = f.isDirectory i := by
  rw [Store.isDirectory, Store.isDirectory, h.2.1]

theorem bytes? (h : Alike f g) (i : Nat) : g.bytes? i = f.bytes? i := by
  rw [Store.bytes?, Store.bytes?, h.2.1]

end Alike

/-- Counting a request is no change. -/
theorem alike_counted (f : Store) : Alike f { f with opens := f.opens + 1 } := ⟨rfl, rfl, rfl⟩

theorem alike_notify (f : Store) (p : Place) (kind : NoticeKind) : Alike f (f.notify p kind) :=
  names_notify f p kind

/-! ## Sound stores -/

/-- A directory is in the place. -/
def HasDirectory (f : Store) (p : Place) : Prop := ∃ i, f.node? p = some i ∧ f.isDirectory i = true

/-- A file is in the place. -/
def HasFile (f : Store) (p : Place) (i : Nat) (bytes : ByteArray) : Prop :=
  f.node? p = some i ∧ f.bytes? i = some bytes

structure Sound (f : Store) : Prop where
  root : f.isDirectory 0 = true
  working : f.HasDirectory f.working
  /-- All entries stand in directories. -/
  parent : ∀ p i, f.node? p = some i → f.HasDirectory p.tail
  /-- No node has two names. -/
  single : ∀ p q i, f.node? p = some i → f.node? q = some i → p = q
  lt : ∀ p i, f.node? p = some i → i < f.nodes.size

theorem isDirectory_of_bytes? {bytes : ByteArray} (h : f.bytes? i = some bytes) :
    f.isDirectory i = false := by
  unfold bytes? at h
  unfold isDirectory
  split at h
  next hi => rw [hi]; rfl
  · cases h

/-- What the entries and directories make of a sound store is sound. -/
theorem Sound.congr (hf : f.Sound) (hworking : f.HasDirectory g.working)
    (hnode : ∀ p, g.node? p = f.node? p) (hdirectory : ∀ i, g.isDirectory i = f.isDirectory i)
    (hsize : f.nodes.size ≤ g.nodes.size) : g.Sound := by
  have hhas : ∀ p, f.HasDirectory p → g.HasDirectory p := by
    rintro p ⟨i, hi, hd⟩
    exact ⟨i, (hnode p).trans hi, (hdirectory i).trans hd⟩
  refine ⟨(hdirectory 0).trans hf.root, hhas _ hworking, fun p i hi => ?_,
    fun p q i hi hj => ?_, fun p i hi => ?_⟩
  · exact hhas _ (hf.parent p i ((hnode p).symm.trans hi))
  · exact hf.single p q i ((hnode p).symm.trans hi) ((hnode q).symm.trans hj)
  · exact Nat.lt_of_lt_of_le (hf.lt p i ((hnode p).symm.trans hi)) hsize

theorem Sound.alike (hf : f.Sound) (h : Alike f g) : g.Sound :=
  hf.congr (h.2.2 ▸ hf.working) h.node? h.isDirectory (Nat.le_of_eq (congrArg Array.size h.2.1).symm)

/-- All that stands above an entry are directories. -/
theorem Sound.above (hf : f.Sound) {above below : List String}
    (h : f.node? (above ++ below) = some i)
    (hne : above ≠ []) : f.HasDirectory below := by
  induction above generalizing i with
  | nil => exact absurd rfl hne
  | cons name above ih =>
      obtain ⟨j, hj, hd⟩ := hf.parent _ _ h
      by_cases ha : above = []
      · subst ha
        exact ⟨j, hj, hd⟩
      · exact ih hj ha

/-! ## Adding an entry -/

theorem node?_add (hp : f.node? p = none) (c : Content) (q : Place) :
    (f.add p c).1.node? q = if q = p then some f.nodes.size else f.node? q := by
  have hne : p ≠ [] := by
    rintro rfl
    cases hp
  refine ((alike_notify _ p .created).node? q).trans ?_
  by_cases hq : q = p
  · subst hq
    rw [node?, if_neg (by simpa using hne)] at hp
    simp [node?, hne, List.lookup_append, hp]
  · have hlookup : [(p, f.nodes.size)].lookup q = none := by
      simp [List.lookup_cons, beq_eq_false_iff_ne.2 hq]
    rw [if_neg hq, node?, node?, List.lookup_append, hlookup, Option.or_none]

theorem names_add (f : Store) (p : Place) (c : Content) :
    (f.add p c).1.names = f.names ++ [(p, f.nodes.size)] :=
  (names_notify _ p .created).1

theorem nodes_add (f : Store) (p : Place) (c : Content) : (f.add p c).1.nodes = f.nodes.push c :=
  (names_notify _ p .created).2.1

theorem working_add (f : Store) (p : Place) (c : Content) : (f.add p c).1.working = f.working :=
  (names_notify _ p .created).2.2

theorem isDirectory_add_of_ne (f : Store) (p : Place) (c : Content) (h : i ≠ f.nodes.size) :
    (f.add p c).1.isDirectory i = f.isDirectory i := by
  simp [isDirectory, nodes_add, Array.getElem?_push, h]

theorem bytes?_add_of_ne (f : Store) (p : Place) (c : Content) (h : i ≠ f.nodes.size) :
    (f.add p c).1.bytes? i = f.bytes? i := by
  simp [bytes?, nodes_add, Array.getElem?_push, h]

theorem bytes?_size (f : Store) : f.bytes? f.nodes.size = none := by simp [bytes?]

theorem hasDirectory_add (hf : f.Sound) (hp : f.node? p = none) (c : Content)
    (h : f.HasDirectory q) : (f.add p c).1.HasDirectory q := by
  obtain ⟨i, hi, hd⟩ := h
  have hne : q ≠ p := by
    rintro rfl
    cases hi.symm.trans hp
  refine ⟨i, by rw [node?_add hp, if_neg hne, hi], ?_⟩
  rw [isDirectory_add_of_ne _ _ _ (Nat.ne_of_lt (hf.lt q i hi)), hd]

theorem Sound.add (hf : f.Sound) (hp : f.node? p = none) (hparent : f.HasDirectory p.tail)
    (c : Content) : (f.add p c).1.Sound := by
  have hhas : ∀ q, f.HasDirectory q → (f.add p c).1.HasDirectory q := fun q h =>
    hasDirectory_add hf hp c h
  constructor
  case root => rw [isDirectory_add_of_ne _ _ _ (Nat.ne_of_lt (hf.lt [] 0 rfl)), hf.root]
  case working => exact working_add f p c ▸ hhas _ hf.working
  case parent =>
    intro q i hi
    rw [node?_add hp] at hi
    split at hi
    next hq => exact hq ▸ hhas _ hparent
    · exact hhas _ (hf.parent q i hi)
  case single =>
    intro q r i hq hr
    rw [node?_add hp] at hq hr
    -- the new node is beyond all that have names
    split at hq <;> split at hr
    next h h' => rw [h, h']
    · have hlt := hf.lt r i hr
      rw [← Option.some.inj hq] at hlt
      exact absurd hlt (Nat.lt_irrefl _)
    · have hlt := hf.lt q i hq
      rw [← Option.some.inj hr] at hlt
      exact absurd hlt (Nat.lt_irrefl _)
    · exact hf.single q r i hq hr
  case lt =>
    intro q i hi
    rw [node?_add hp] at hi
    rw [nodes_add, Array.size_push]
    split at hi
    · obtain rfl := Option.some.inj hi
      exact Nat.lt_succ_self _
    · exact Nat.lt_succ_of_lt (hf.lt q i hi)

/-! ## Finding places -/

/-- All directories of the one store are directories of the other. -/
def Grows (f g : Store) : Prop :=
  g.working = f.working ∧ ∀ p, f.HasDirectory p → g.HasDirectory p

theorem Grows.trans (h : Grows f g) (h' : Grows g k) : Grows f k :=
  ⟨h'.1.trans h.1, fun p hp => h'.2 p (h.2 p hp)⟩

theorem Alike.grows (h : Alike f g) : Grows f g :=
  ⟨h.2.2, fun p ⟨i, hi, hd⟩ => ⟨i, (h.node? p).trans hi, (h.isDirectory i).trans hd⟩⟩

theorem enter_eq_ok {c : Component} : f.enter p c = .ok q ↔
    c = .root ∧ q = [] ∨ c = .current ∧ q = p ∨ c = .parent ∧ q = p.tail ∨
      ∃ n, c = .name n ∧ child p n = .ok q ∧ f.HasDirectory q := by
  cases c with
  | root => simp [enter, eq_comm]
  | current => simp [enter, eq_comm]
  | parent => simp [enter, eq_comm]
  | name n =>
      simp only [enter, reduceCtorEq, false_and, false_or, Component.name.injEq]
      cases hchild : child p n with
      | error e => simp [bind, Except.bind, hchild]
      | ok r =>
          simp only [bind, Except.bind]
          constructor
          · intro h
            split at h
            next => cases h
            next i hi =>
                split at h
                next hd =>
                    cases h
                    exact ⟨n, rfl, hchild, i, hi, hd⟩
                · cases h
          · rintro ⟨n', rfl, hq, i, hi, hd⟩
            obtain rfl := Except.ok.inj (hchild.symm.trans hq)
            rw [hi]
            simp [hd]

theorem enter_grows {c : Component} (h : f.enter p c = .ok q) (hg : Grows f g) :
    g.enter p c = .ok q := by
  rw [enter_eq_ok] at h ⊢
  obtain h | h | h | ⟨n, hc, hq, hd⟩ := h
  · exact .inl h
  · exact .inr (.inl h)
  · exact .inr (.inr (.inl h))
  · exact .inr (.inr (.inr ⟨n, hc, hq, hg.2 q hd⟩))

theorem Sound.enter (hf : f.Sound) {c : Component} (hp : f.HasDirectory p)
    (h : f.enter p c = .ok q) : f.HasDirectory q := by
  obtain ⟨-, rfl⟩ | ⟨-, rfl⟩ | ⟨-, rfl⟩ | ⟨n, -, -, hd⟩ := enter_eq_ok.1 h
  · exact ⟨0, rfl, hf.root⟩
  · exact hp
  · obtain ⟨i, hi, -⟩ := hp
    exact hf.parent p i hi
  · exact hd

theorem foldlM_enter_grows {cs : List Component} (h : cs.foldlM f.enter p = .ok q)
    (hg : Grows f g) : cs.foldlM g.enter p = .ok q := by
  induction cs generalizing p with
  | nil => exact h
  | cons c cs ih =>
      rw [List.foldlM_cons] at h ⊢
      cases he : f.enter p c with
      | error e =>
          rw [he] at h
          cases h
      | ok r =>
          rw [he] at h
          rw [enter_grows he hg]
          exact ih h

theorem Sound.foldlM_enter (hf : f.Sound) {cs : List Component} (hp : f.HasDirectory p)
    (h : cs.foldlM f.enter p = .ok q) : f.HasDirectory q := by
  induction cs generalizing p with
  | nil =>
      obtain rfl := Except.ok.inj h
      exact hp
  | cons c cs ih =>
      rw [List.foldlM_cons] at h
      cases he : f.enter p c with
      | error e =>
          rw [he] at h
          cases h
      | ok r =>
          rw [he] at h
          exact ih (hf.enter hp he) h

theorem directory_grows {cs : List Component} (h : f.directory cs = .ok q) (hg : Grows f g) :
    g.directory cs = .ok q := by
  unfold directory at h ⊢
  rw [hg.1]
  exact foldlM_enter_grows h hg

/-- A path leads to a place in a directory, or to a directory. -/
theorem place_eq_ok : f.place path = .ok p ↔
    ∃ cs c, components path = .ok cs ∧ cs.getLast? = some c ∧
      ((∃ n parent, c = .name n ∧ f.directory cs.dropLast = .ok parent ∧ child parent n = .ok p) ∨
        (∀ n, c ≠ .name n) ∧ f.directory cs = .ok p) := by
  unfold place
  cases hc : components path with
  | error e => simp [bind, Except.bind]
  | ok cs =>
      simp only [bind, Except.bind, placeOf, Except.ok.injEq]
      cases hlast : cs.getLast? with
      | none => simp [hlast]
      | some c =>
          cases c with
          | name n => cases hd : f.directory cs.dropLast <;> simp [hlast, hd]
          | root => simp [hlast]
          | current => simp [hlast]
          | parent => simp [hlast]

theorem place_grows (h : f.place path = .ok p) (hg : Grows f g) : g.place path = .ok p := by
  rw [place_eq_ok] at h ⊢
  obtain ⟨cs, c, hc, hlast, ⟨n, parent, hn, hd, hchild⟩ | ⟨hn, hd⟩⟩ := h
  · exact ⟨cs, c, hc, hlast, .inl ⟨n, parent, hn, directory_grows hd hg, hchild⟩⟩
  · exact ⟨cs, c, hc, hlast, .inr ⟨hn, directory_grows hd hg⟩⟩

theorem child_eq_ok {name : String} (h : child p name = .ok q) : q = name :: p := by
  unfold child at h
  split at h
  · cases h
  · exact (Except.ok.inj h).symm

/-- A free place that a path leads to is in a directory. -/
theorem Sound.parent_of_place (hf : f.Sound) (h : f.place path = .ok p) (hp : f.node? p = none) :
    f.HasDirectory p.tail := by
  obtain ⟨cs, c, -, -, ⟨n, parent, -, hd, hchild⟩ | ⟨-, hd⟩⟩ := place_eq_ok.1 h
  · rw [child_eq_ok hchild]
    exact hf.foldlM_enter hf.working hd
  · obtain ⟨i, hi, -⟩ := hf.foldlM_enter hf.working hd
    cases hi.symm.trans hp

/-! ## Adding directories -/

/-- Directories have been added to the store, and nothing else has changed. -/
structure Widens (f g : Store) : Prop where
  working : g.working = f.working
  node : ∀ p i, f.node? p = some i → g.node? p = some i
  directory : ∀ i, f.isDirectory i = true → g.isDirectory i = true
  bytes : ∀ i, g.bytes? i = f.bytes? i
  added : ∀ p i, g.node? p = some i → f.node? p = some i ∨ g.isDirectory i = true

namespace Widens

theorem trans (h : Widens f g) (h' : Widens g k) : Widens f k where
  working := h'.working.trans h.working
  node p i hi := h'.node p i (h.node p i hi)
  directory i hi := h'.directory i (h.directory i hi)
  bytes i := (h'.bytes i).trans (h.bytes i)
  added p i hi := by
    rcases h'.added p i hi with hi | hd
    · exact (h.added p i hi).imp id (h'.directory i)
    · exact .inr hd

theorem grows (h : Widens f g) : Grows f g :=
  ⟨h.working, fun p ⟨i, hi, hd⟩ => ⟨i, h.node p i hi, h.directory i hd⟩⟩

end Widens

theorem Alike.widens (h : Alike f g) : Widens f g where
  working := h.2.2
  node p _ hi := (h.node? p).trans hi
  directory i hi := (h.isDirectory i).trans hi
  bytes := h.bytes?
  added p _ hi := .inl ((h.node? p).symm.trans hi)

theorem widens_add (hp : f.node? p = none) :
    Widens f (f.add p .directory).1 where
  working := working_add f p .directory
  node q _ hi := by
    have hne : q ≠ p := by
      rintro rfl
      cases hi.symm.trans hp
    rw [node?_add hp, if_neg hne, hi]
  directory i hi := by
    by_cases hi' : i = f.nodes.size
    · simp [isDirectory, nodes_add, hi']
    · rw [isDirectory_add_of_ne _ _ _ hi', hi]
  bytes i := by
    by_cases hi : i = f.nodes.size
    · simp [bytes?, nodes_add, hi]
    · exact bytes?_add_of_ne _ _ _ hi
  added q i hi := by
    rw [node?_add hp] at hi
    split at hi
    · obtain rfl := Option.some.inj hi
      exact .inr (by simp [isDirectory, nodes_add])
    · exact .inl hi

theorem enter_eq_notFound {c : Component} (h : f.enter p c = .error .notFound) :
    ∃ n, c = .name n ∧ child p n = .ok (n :: p) ∧ f.node? (n :: p) = none := by
  cases c with
  | root | current | parent => cases h
  | name n =>
      simp only [enter] at h
      cases hchild : child p n with
      | error e =>
          rw [hchild] at h
          obtain rfl := Except.error.inj h
          unfold child at hchild
          split at hchild <;> cases hchild
      | ok q =>
          obtain rfl := child_eq_ok hchild
          rw [hchild] at h
          simp only [bind, Except.bind] at h
          refine ⟨n, rfl, hchild, ?_⟩
          split at h
          next hq => exact hq
          · split at h <;> cases h

theorem createAlong_of_enter {c : Component} (he : f.enter p c = .ok q) (cs : List Component) :
    f.createAlong p (c :: cs) = f.createAlong q cs := by
  simp only [createAlong, he]

theorem createAlong_of_missing {n : String} (he : f.enter p (.name n) = .error .notFound)
    (cs : List Component) : f.createAlong p (.name n :: cs)
      = (f.add (n :: p) .directory).1.createAlong (n :: p) cs := by
  simp only [createAlong, he]

theorem createAlong_of_error {c : Component} {e : FileError} (he : f.enter p c = .error e)
    (hne : e ≠ .notFound) (cs : List Component) :
    ∃ e', f.createAlong p (c :: cs) = (f, .error e') := by
  cases e <;> cases c <;> simp_all [createAlong]

/-- Creating the directories along a path adds directories. Once that has been done, doing it again
changes nothing. -/
theorem Sound.createAlong (hf : f.Sound) (hp : f.HasDirectory p) (cs : List Component) :
    (f.createAlong p cs).1.Sound ∧ Widens f (f.createAlong p cs).1 ∧
      ∀ q, (f.createAlong p cs).2 = .ok q →
        ∀ k, Grows (f.createAlong p cs).1 k → k.createAlong p cs = (k, .ok q) := by
  -- on the components, for all stores: a directory that is added changes the store for the rest
  induction cs generalizing f p with
  | nil =>
      refine ⟨hf, (Alike.refl f).widens, fun q hq k _ => ?_⟩
      obtain rfl := Except.ok.inj hq
      rfl
  | cons c cs ih =>
      cases he : f.enter p c with
      | ok r =>
          obtain ⟨hsound, hwidens, hagain⟩ := ih hf (hf.enter hp he)
          rw [createAlong_of_enter he]
          refine ⟨hsound, hwidens, fun q hq k hk => ?_⟩
          rw [createAlong_of_enter (enter_grows he (hwidens.grows.trans hk))]
          exact hagain q hq k hk
      | error e =>
          by_cases hmissing : e = .notFound
          · subst hmissing
            obtain ⟨n, rfl, hchild, hfree⟩ := enter_eq_notFound he
            have hnew : (f.add (n :: p) .directory).1.HasDirectory (n :: p) :=
              ⟨f.nodes.size, by rw [node?_add hfree, if_pos rfl], by simp [isDirectory, nodes_add]⟩
            obtain ⟨hsound, hwidens, hagain⟩ := ih (hf.add hfree hp .directory) hnew
            rw [createAlong_of_missing he]
            refine ⟨hsound, (widens_add hfree).trans hwidens, fun q hq k hk => ?_⟩
            -- the second time the directory is there
            have henter : k.enter p (.name n) = .ok (n :: p) :=
              enter_eq_ok.2 (.inr (.inr (.inr ⟨n, rfl, hchild, hk.2 _ (hwidens.grows.2 _ hnew)⟩)))
            rw [createAlong_of_enter henter]
            exact hagain q hq k hk
          · obtain ⟨e', heq⟩ := createAlong_of_error he hmissing cs
            rw [heq]
            refine ⟨hf, (Alike.refl f).widens, fun q hq => ?_⟩
            cases hq

theorem Sound.createParent (hf : f.Sound) (path : String) :
    (f.createParent path).1.Sound ∧ Widens f (f.createParent path).1 ∧
      ((f.createParent path).2.isOk = true →
        ∀ k, Grows (f.createParent path).1 k → k.createParent path = (k, .ok ())) := by
  unfold Store.createParent createDirectories
  cases components (Path.parent path) with
  | error e =>
      exact ⟨hf, (Alike.refl f).widens, fun h => nomatch h⟩
  | ok cs =>
      obtain ⟨hsound, hwidens, hagain⟩ := hf.createAlong hf.working cs
      refine ⟨hsound, hwidens, fun hok k hk => ?_⟩
      cases hresult : (f.createAlong f.working cs).2 with
      | error e => simp [hresult, Except.map, Except.isOk, Except.toBool] at hok
      | ok q =>
          have hworking : k.working = f.working := hk.1.trans hwidens.working
          simp only [hworking, hagain q hresult k hk]
          rfl

/-! ## Opening files -/

theorem Sound.bytes_of_file (hf : f.Sound) (h : f.node? p = some i) (hd : f.isDirectory i = false) :
    ∃ bytes, f.HasFile p i bytes := by
  have hlt := hf.lt p i h
  cases hc : f.nodes[i] with
  | directory => simp [isDirectory, Array.getElem?_eq_getElem hlt, hc] at hd
  | file bytes => exact ⟨bytes, h, by simp [bytes?, Array.getElem?_eq_getElem hlt, hc]⟩

/-- Opening the file under a path, when the directories above it are there. -/
theorem openFile_cases (f : Store) (path : String) :
    (∃ e, f.openFile path = (f, .error e)) ∨
    ∃ p, f.place path = .ok p ∧ wantsDirectory path = false ∧
      ((∃ i g, f.openFile path = (g, .ok i) ∧ f.node? p = some i ∧ f.isDirectory i = false ∧
          Alike f g) ∨
        f.openFile path = ((f.add p (.file .empty)).1, .ok f.nodes.size) ∧ f.node? p = none) := by
  unfold openFile
  cases f.place path with
  | error e => exact .inl ⟨e, rfl⟩
  | ok p =>
      simp only
      cases hp : f.node? p with
      | none =>
          cases hw : wantsDirectory path with
          | true => exact .inl ⟨_, rfl⟩
          | false => exact .inr ⟨p, rfl, rfl, .inr ⟨rfl, hp⟩⟩
      | some i =>
          cases hd : f.isDirectory i with
          | true => exact .inl ⟨.isDirectory, by simp [hd]⟩
          | false =>
              cases hw : wantsDirectory path with
              | true => exact .inl ⟨.notDirectory, by simp [hd]⟩
              | false =>
                  exact .inr ⟨p, rfl, rfl,
                    .inl ⟨i, _, by simp [hd], hp, hd, alike_notify f p .accessed⟩⟩

/-- The path of a file leads to a place, now and for as long as the directories are there. -/
structure Ready (path : String) (p : Place) (f : Store) : Prop where
  file : wantsDirectory path = false
  place : f.place path = .ok p
  /-- There are no directories to be created. -/
  parent : ∀ g, Grows f g → g.createParent path = (g, .ok ())

theorem Ready.grows (h : f.Ready path p) (hg : Grows f g) : g.Ready path p where
  file := h.file
  place := place_grows h.place hg
  parent k hk := h.parent k (hg.trans hk)

theorem Alike.add (h : Alike f g) (p : Place) (c : Content) : Alike (f.add p c).1 (g.add p c).1 := by
  refine ⟨?_, ?_, ?_⟩
  · rw [names_add, names_add, h.1, h.2.1]
  · rw [nodes_add, nodes_add, h.2.1]
  · rw [working_add, working_add, h.2.2]

/-- Opening a file whose directories are there: it is turned down, or the file is there, or it is
added. -/
theorem Ready.openAppend (h : f.Ready path p) :
    (∃ e g, f.openAppend path = (g, .error e) ∧ Alike f g) ∨
    (∃ i g, f.openAppend path = (g, .ok i) ∧ f.node? p = some i ∧ f.isDirectory i = false ∧
      Alike f g) ∨
    ∃ g, f.openAppend path = (g, .ok f.nodes.size) ∧ f.node? p = none ∧
      Alike (f.add p (.file .empty)).1 g := by
  have hcount := alike_counted f
  unfold Store.openAppend
  cases f.refuses f.opens path with
  | true => exact .inl ⟨_, _, rfl, hcount⟩
  | false =>
      simp only [Bool.false_eq_true, if_false, h.parent _ hcount.grows]
      obtain ⟨e, he⟩ | ⟨q, hq, -, ⟨i, g, hopen, hi, hd, hg⟩ | ⟨hopen, hfree⟩⟩ :=
        openFile_cases { f with opens := f.opens + 1 } path
      · exact .inl ⟨e, _, he, hcount⟩
      all_goals
        obtain rfl := Except.ok.inj (hq.symm.trans (place_grows h.place hcount.grows))
      · exact .inr (.inl ⟨i, g, hopen, hi, hd, hcount.trans hg⟩)
      · exact .inr (.inr ⟨_, hopen, hfree, hcount.add q _⟩)

/-- After a file has been opened, the directories above it are there. -/
theorem Sound.ready_of_openAppend (hf : f.Sound) (h : f.openAppend path = (g, .ok i)) :
    ∃ k p, k.Sound ∧ Widens f k ∧ k.Ready path p ∧
      (k.node? p = some i ∧ k.isDirectory i = false ∧ Alike k g ∨
        k.node? p = none ∧ i = k.nodes.size ∧ g = (k.add p (.file .empty)).1) := by
  have hcount := alike_counted f
  obtain ⟨hsound, hwidens, hagain⟩ := (hf.alike hcount).createParent path
  unfold Store.openAppend at h
  cases hr : f.refuses f.opens path with
  | true => simp [hr] at h
  | false =>
      simp only [hr, Bool.false_eq_true, if_false] at h
      -- the store is as the directories above the file have left it
      generalize Store.createParent { f with opens := f.opens + 1 } path = created
        at h hsound hwidens hagain
      obtain ⟨k, e | u⟩ := created
      · simp at h
      simp only at h hsound hwidens hagain
      obtain ⟨e, he⟩ | ⟨p, hp, hw, hcases⟩ := openFile_cases k path
      · rw [he] at h
        simp at h
      refine ⟨k, p, hsound, hcount.widens.trans hwidens, ⟨hw, hp, hagain rfl⟩, ?_⟩
      obtain ⟨j, g', hopen, hj, hd, hg⟩ | ⟨hopen, hfree⟩ := hcases
      · obtain ⟨rfl, hi⟩ := Prod.mk.inj (hopen.symm.trans h)
        obtain rfl := Except.ok.inj hi
        exact .inl ⟨hj, hd, hg⟩
      · obtain ⟨rfl, hi⟩ := Prod.mk.inj (hopen.symm.trans h)
        exact .inr ⟨hfree, (Except.ok.inj hi).symm, rfl⟩

/-! ## Appending -/

section

variable {old : ByteArray}

theorem getElem?_of_bytes? (h : f.bytes? i = some old) : f.nodes[i]? = some (.file old) := by
  unfold bytes? at h
  split at h
  next hi => rw [hi, Option.some.inj h]
  · cases h

theorem alike_append (hi : f.bytes? i = some old) (text : String) :
    Alike { f with nodes := f.nodes.set! i (.file (old ++ text.toUTF8)) } (f.append i text) := by
  unfold Store.append
  split
  -- an empty text leaves the store as it is, and so does giving the node what it has
  next hempty =>
      have hsame : f.nodes.set! i (.file (old ++ text.toUTF8)) = f.nodes := by
        rw [String.isEmpty_iff.1 hempty, String.toUTF8_eq_toByteArray, String.toByteArray_empty,
          ByteArray.append_empty]
        apply Array.ext_getElem?
        intro j
        rw [Array.set!_eq_setIfInBounds, Array.getElem?_setIfInBounds]
        split
        next hj =>
            have hlt := (Array.getElem?_eq_some_iff.1 (getElem?_of_bytes? hi)).1
            rw [if_pos hlt, ← hj, getElem?_of_bytes? hi]
        · rfl
      exact ⟨rfl, hsame.symm, rfl⟩
  · unfold update
    rw [hi]
    simp only
    split
    · exact alike_notify _ _ .modified
    · exact ⟨rfl, rfl, rfl⟩

/-- Appending changes one file. -/
theorem bytes?_append (hi : f.bytes? i = some old) (text : String) (j : Nat) :
    (f.append i text).bytes? j = if j = i then some (old ++ text.toUTF8) else f.bytes? j := by
  have hlt := (Array.getElem?_eq_some_iff.1 (getElem?_of_bytes? hi)).1
  rw [(alike_append hi text).bytes?]
  by_cases hj : j = i
  · subst hj
    simp [bytes?, hlt]
  · simp [bytes?, hj, Ne.symm hj]

theorem node?_append (hi : f.bytes? i = some old) (text : String) (p : Place) :
    (f.append i text).node? p = f.node? p :=
  (alike_append hi text).node? p

theorem isDirectory_append (hi : f.bytes? i = some old) (text : String) (j : Nat) :
    (f.append i text).isDirectory j = f.isDirectory j := by
  by_cases hj : j = i
  · subst hj
    rw [isDirectory_of_bytes? hi,
      isDirectory_of_bytes? ((bytes?_append hi text j).trans (if_pos rfl))]
  · rw [(alike_append hi text).isDirectory]
    simp [isDirectory, Ne.symm hj]

theorem Sound.append (hf : f.Sound) (hi : f.bytes? i = some old) (text : String) :
    (f.append i text).Sound := by
  refine hf.congr ((alike_append hi text).2.2 ▸ hf.working) (node?_append hi text)
    (isDirectory_append hi text) ?_
  rw [(alike_append hi text).2.1]
  simp

theorem grows_append (hi : f.bytes? i = some old) (text : String) : Grows f (f.append i text) := by
  refine ⟨(alike_append hi text).2.2, fun p ⟨j, hj, hd⟩ => ⟨j, ?_, ?_⟩⟩
  · rw [node?_append hi, hj]
  · rw [isDirectory_append hi, hd]

end

/-! ## What logging starts with and comes to -/

/-- The directories of the working directory are the only entries to start with. -/
theorem sound_addDirectories (p : Place) :
    let f : Store := ({ nodes := #[.directory], names := [], working := [] } : Store).addDirectories p
    f.Sound ∧ f.HasDirectory p ∧ ∀ q i, f.node? q = some i → q <:+ p := by
  induction p with
  | nil =>
      have hroot : ∀ (q : Place) (i : Nat), ({ nodes := #[.directory], names := [], working := [] } :
          Store).node? q = some i → q = [] ∧ i = 0 := by
        intro q i hi
        cases q with
        | nil => exact ⟨rfl, (Option.some.inj hi).symm⟩
        | cons name q => simp [node?] at hi
      refine ⟨⟨rfl, ⟨0, rfl, rfl⟩, fun q i hi => ?_, fun q r i hi hj => ?_, fun q i hi => ?_⟩,
        ⟨0, rfl, rfl⟩, fun q i hi => ?_⟩
      · rw [(hroot q i hi).1]
        exact ⟨0, rfl, rfl⟩
      · rw [(hroot q i hi).1, (hroot r i hj).1]
      · rw [(hroot q i hi).2]
        exact Nat.one_pos
      · exact (hroot q i hi).1 ▸ List.suffix_refl []
  | cons name p ih =>
      obtain ⟨hsound, hparent, hbelow⟩ := ih
      generalize hf : ({ nodes := #[.directory], names := [], working := [] } :
        Store).addDirectories p = f at hsound hparent hbelow
      have hfree : f.node? (name :: p) = none := by
        cases hn : f.node? (name :: p) with
        | none => rfl
        | some i =>
            have hle := (hbelow _ i hn).length_le
            rw [List.length_cons] at hle
            omega
      simp only [addDirectories, hf]
      refine ⟨hsound.add hfree hparent _, ⟨f.nodes.size, by rw [node?_add hfree, if_pos rfl],
        by simp [isDirectory, nodes_add]⟩, fun q i hi => ?_⟩
      rw [node?_add hfree] at hi
      split at hi
      next hq => exact hq ▸ List.suffix_refl _
      · exact (hbelow q i hi).trans (List.suffix_cons name p)

theorem addDirectories_working (f : Store) (working p : Place) :
    ({ f with working }.addDirectories p).names = (f.addDirectories p).names ∧
      ({ f with working }.addDirectories p).nodes = (f.addDirectories p).nodes := by
  induction p with
  | nil => exact ⟨rfl, rfl⟩
  | cons name p ih =>
      simp only [addDirectories]
      rw [names_add, nodes_add, names_add, nodes_add, ih.1, ih.2]
      exact ⟨rfl, rfl⟩

theorem working_addDirectories (f : Store) (p : Place) :
    (f.addDirectories p).working = f.working := by
  induction p with
  | nil => rfl
  | cons name p ih => rw [addDirectories, working_add, ih]

theorem sound_start (working : Place) : (start working).Sound := by
  obtain ⟨hsound, hworking, -⟩ := sound_addDirectories working
  obtain ⟨hnames, hnodes⟩ := addDirectories_working
    { nodes := #[.directory], names := [], working := [] } working working
  refine hsound.congr ?_ (fun p => ?_) (fun i => ?_) (Nat.le_of_eq (congrArg Array.size hnodes).symm)
  · have hsame : (start working).working = working := working_addDirectories _ working
    rw [hsame]
    exact hworking
  · exact congrArg (fun names => if p.isEmpty then some 0 else names.lookup p) hnames
  · exact congrArg (fun nodes : Array Content => nodes[i]?.any (·.isDirectory)) hnodes

end ConfigLog.Files.Store
