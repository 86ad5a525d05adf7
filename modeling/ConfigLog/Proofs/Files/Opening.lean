import ConfigLog.Files.Store

set_option autoImplicit false

/-! # Opening and writing files

Logging touches the file system in two ways only: it opens files to append to them, and it appends.
`Store.Leads` is what can become of a store that way. A store is `Settled` on some paths when the
answer to opening one of them is always the same, whatever has been opened and written before, as
when they are always turned down (`settled_of_refuses`). A file right in the working directory can
be opened again and again unless a directory has its name (`settledOn_of_clear`).
-/

namespace ConfigLog.Files.Store

variable {P : String → Prop}

/-- What becomes of a store when texts are appended and files opened whose paths are of one kind. -/
inductive Leads (P : String → Prop) : Store → Store → Prop
  | refl (f : Store) : Leads P f f
  | append {f g : Store} (handle : Nat) (text : String) (h : Leads P f g) :
      Leads P f (g.append handle text)
  | openAppend {f g : Store} {path : String} (hp : P path) (h : Leads P f g) :
      Leads P f (g.openAppend path).1

theorem Leads.trans {f g k : Store} (h : Leads P f g) (h' : Leads P g k) : Leads P f k := by
  induction h' with
  | refl => exact h
  | append handle text _ ih => exact .append handle text ih
  | openAppend hp _ ih => exact .openAppend hp ih

theorem Leads.mono {Q : String → Prop} {f g : Store} (h : Leads Q f g)
    (hsub : ∀ path, Q path → P path) : Leads P f g := by
  induction h with
  | refl => exact .refl _
  | append handle text _ ih => exact .append handle text ih
  | openAppend hp _ ih => exact .openAppend (hsub _ hp) ih

/-- Whether a file of the second kind can be opened is settled by its path alone, now and after
files of the first kind have been opened and written. -/
def SettledOn (P Q : String → Prop) (opens : String → Bool) (f : Store) : Prop :=
  ∀ g, Leads P f g → ∀ path, Q path → (g.openAppend path).2.isOk = opens path

theorem SettledOn.of_leads {Q : String → Prop} {opens : String → Bool} {f g : Store}
    (hs : SettledOn P Q opens f) (h : Leads P f g) : SettledOn P Q opens g :=
  fun k hk => hs k (h.trans hk)

/-- Whether a file of one kind can be opened is settled by its path alone, now and later. -/
def Settled (P : String → Prop) (opens : String → Bool) (f : Store) : Prop :=
  ∀ g, Leads P f g → ∀ path, P path → (g.openAppend path).2.isOk = opens path

/-! ## Requests that are turned down -/

theorem refuses_notify (f : Store) (p : Place) (kind : NoticeKind) :
    (f.notify p kind).refuses = f.refuses := by
  unfold notify
  split
  · rfl
  · split <;> rfl

theorem refuses_add (f : Store) (p : Place) (c : Content) : (f.add p c).1.refuses = f.refuses :=
  refuses_notify _ p .created

theorem refuses_createAlong (cs : List Component) (f : Store) (p : Place) :
    (f.createAlong p cs).1.refuses = f.refuses := by
  induction cs generalizing f p with
  | nil => rfl
  | cons c cs ih =>
      cases he : f.enter p c with
      | ok q => simp [createAlong, he, ih]
      | error e => cases e <;> cases c <;> simp [createAlong, he, ih, refuses_add]

theorem refuses_createParent (f : Store) (path : String) :
    (f.createParent path).1.refuses = f.refuses := by
  unfold createParent createDirectories
  split
  · rfl
  · exact refuses_createAlong _ f f.working

theorem refuses_openFile (f : Store) (path : String) :
    (f.openFile path).1.refuses = f.refuses := by
  unfold openFile
  split
  · rfl
  · split
    · split
      · rfl
      · split
        · rfl
        · exact refuses_notify f _ .accessed
    · split
      · rfl
      · exact refuses_add f _ _

theorem refuses_openAppend (f : Store) (path : String) :
    (f.openAppend path).1.refuses = f.refuses := by
  have hp := refuses_createParent { f with opens := f.opens + 1 } path
  unfold openAppend
  simp only
  split
  · rfl
  · split
    · rename_i g e he
      rw [he] at hp
      exact hp
    · rename_i g he
      rw [he] at hp
      rw [refuses_openFile, hp]

theorem refuses_append (f : Store) (handle : Nat) (text : String) :
    (f.append handle text).refuses = f.refuses := by
  unfold append update
  split
  · rfl
  · split
    · rfl
    · simp only
      split
      · exact refuses_notify _ _ .modified
      · rfl

theorem Leads.refuses {f g : Store} (h : Leads P f g) : g.refuses = f.refuses := by
  induction h with
  | refl => rfl
  | append handle text _ ih => rw [refuses_append, ih]
  | openAppend _ _ ih => rw [refuses_openAppend, ih]

/-- Paths that are always turned down are settled. -/
theorem settled_of_refuses {f : Store} (h : ∀ n path, P path → f.refuses n path = true) :
    Settled P (fun _ => false) f := by
  intro g hg path hp
  have hr : g.refuses g.opens path = true := by rw [hg.refuses, h g.opens path hp]
  simp [openAppend, hr, Except.isOk, Except.toBool]

/-- Nothing can be opened under the empty path. -/
theorem isOk_openAppend_empty (f : Store) : (f.openAppend "").2.isOk = false := by
  unfold openAppend
  simp only
  split
  · rfl
  · split <;> rfl

/-! ## Files in the working directory -/

/-- The path is no more than the name of a file. -/
structure Bare (path name : String) : Prop where
  components : components path = .ok [.name name]
  parent : Path.parent path = ""
  file : wantsDirectory path = false
  short : name.utf8ByteSize ≤ 255

/-- No file of one kind is turned down, and none has the name of a directory in the working
directory. -/
structure Clear (P : String → Prop) (f : Store) : Prop where
  refuses : ∀ n path, P path → f.refuses n path = false
  file : ∀ path name, P path → Bare path name →
    ∀ i, f.node? (name :: f.working) = some i → f.isDirectory i = false

/-- What is clear stays so while no directories are added. -/
theorem Clear.of_files {f g : Store} (h : Clear P f) (hr : g.refuses = f.refuses)
    (hw : g.working = f.working) (hd : ∀ i, f.isDirectory i = false → g.isDirectory i = false)
    (hn : ∀ q i, g.node? q = some i → f.node? q = some i ∨ g.isDirectory i = false) :
    Clear P g where
  refuses n path hp := by rw [hr, h.refuses n path hp]
  file path name hp hb i hi := by
    rcases hn _ i hi with hi | hi
    · rw [hw] at hi
      exact hd i (h.file path name hp hb i hi)
    · exact hi

theorem names_notify (f : Store) (p : Place) (kind : NoticeKind) :
    (f.notify p kind).names = f.names ∧ (f.notify p kind).nodes = f.nodes ∧
      (f.notify p kind).working = f.working := by
  unfold notify
  split
  · exact ⟨rfl, rfl, rfl⟩
  · split <;> exact ⟨rfl, rfl, rfl⟩

theorem Clear.notify {f : Store} (h : Clear P f) (p : Place) (kind : NoticeKind) :
    Clear P (f.notify p kind) := by
  obtain ⟨hnames, hnodes, hworking⟩ := names_notify f p kind
  refine h.of_files (refuses_notify f p kind) hworking (fun i hi => ?_) fun q i hi => .inl ?_
  · rwa [isDirectory, hnodes]
  · rwa [node?, hnames] at hi

/-- A new file is no directory, and takes the place of none. -/
theorem Clear.add {f : Store} (h : Clear P f) (p : Place) (bytes : ByteArray) :
    Clear P (f.add p (.file bytes)).1 := by
  refine Clear.notify (f := { f with
    nodes := f.nodes.push (.file bytes), names := f.names ++ [(p, f.nodes.size)] }) ?_ p .created
  have hold : ∀ i, f.isDirectory i = false →
      (f.nodes.push (.file bytes))[i]?.any (·.isDirectory) = false := by
    intro i hi
    rw [Array.getElem?_push]
    split
    · rfl
    · exact hi
  refine h.of_files rfl rfl hold fun q i hi => ?_
  simp only [node?, List.lookup_append] at hi ⊢
  split at hi
  · rename_i hq
    exact .inl (by rw [if_pos hq]; exact hi)
  · rename_i hq
    rw [if_neg hq]
    cases hl : f.names.lookup q with
    | some j => rw [hl] at hi; exact .inl hi
    | none =>
        rw [hl, Option.none_or] at hi
        have hsize : i = f.nodes.size := by
          by_cases hqp : q = p
          · simpa [hqp] using hi.symm
          · simp [List.lookup_cons, beq_eq_false_iff_ne.2 hqp] at hi
        exact .inr (by simp [isDirectory, hsize])

theorem Clear.append {f : Store} (h : Clear P f) (handle : Nat) (text : String) :
    Clear P (f.append handle text) := by
  have hset : ∀ new : ByteArray, Clear P { f with nodes := f.nodes.set! handle (.file new) } := by
    intro new
    refine h.of_files rfl rfl (fun i hi => ?_) fun q i hi => .inl hi
    simp only [isDirectory, Array.set!_eq_setIfInBounds, Array.getElem?_setIfInBounds] at hi ⊢
    split
    · split <;> rfl
    · exact hi
  unfold Store.append update
  split
  · exact h
  · split
    · exact h
    · simp only
      split
      · exact (hset _).notify _ .modified
      · exact hset _

/-- A bare name that is not turned down can be opened, and it stays so. -/
theorem Clear.openAppend {f : Store} (h : Clear P f) {path name : String} (hp : P path)
    (hb : Bare path name) :
    (f.openAppend path).2.isOk = true ∧ Clear P (f.openAppend path).1 := by
  have hopens : Clear P { f with opens := f.opens + 1 } :=
    h.of_files rfl rfl (fun _ hi => hi) fun _ _ hi => .inl hi
  have hparent : ∀ g : Store, g.createParent path = (g, .ok ()) := by
    intro g
    rw [createParent, hb.parent]
    rfl
  have hplace : ∀ g : Store, g.place path = .ok (name :: g.working) := by
    intro g
    have hc : child g.working name = .ok (name :: g.working) :=
      if_neg (Nat.not_lt.2 hb.short)
    rw [place, hb.components]
    exact hc
  rw [Store.openAppend]
  simp only [h.refuses f.opens path hp, Bool.false_eq_true, if_false, hparent, openFile, hplace,
    hb.file]
  split
  · rename_i i hi
    rw [hopens.file path name hp hb i hi]
    refine ⟨rfl, ?_⟩
    exact hopens.notify (name :: f.working) .accessed
  · refine ⟨rfl, ?_⟩
    exact hopens.add (name :: f.working) .empty

/-- Bare names that are not turned down and not those of directories can be opened at any time. -/
theorem settledOn_of_clear {f : Store} (h : Clear P f)
    (hb : ∀ path, P path → ∃ name, Bare path name) :
    SettledOn P P (fun _ => true) f := by
  intro g hg path hp
  have hclear : Clear P g := by
    induction hg with
    | refl => exact h
    | append handle text _ ih => exact ih.append handle text
    | openAppend hq _ ih =>
        obtain ⟨name, hname⟩ := hb _ hq
        exact (ih.openAppend hq hname).2
  obtain ⟨name, hname⟩ := hb path hp
  exact (hclear.openAppend hp hname).1

end ConfigLog.Files.Store
