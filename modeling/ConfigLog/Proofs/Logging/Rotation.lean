import ConfigLog.Logging.Adjust
import ConfigLog.Proofs.Files.Moving
import Mathlib.Data.List.Forall2

set_option autoImplicit false

/-! # Moving the file of an appender away

The file of an appender may be moved to a free place at any time, and the appender may be asked to
open its path again at any time. Until it does so it goes on writing to the file that has been moved.
If the path cannot be opened the appender holds no file, and the next text makes it try again. In
whatever order this goes, the files that have been moved and the one under the path make up a whole,
and each text that the sink takes comes at its end (`Rotation.follows`).
-/

namespace ConfigLog.Files.Store

variable {f g : Store} {p q : Place} {i k : Nat} {path target : String} {targets : List String}
  {nodes : List Nat} {whole : ByteArray}

/-! ## What is in several files -/

/-- What is in a node, or nothing. -/
def bytesAt (f : Store) (i : Nat) : ByteArray := (f.bytes? i).getD .empty

/-- What is in the file under a path, or nothing. -/
def contents (f : Store) (path : String) : ByteArray := (f.read path).toOption.getD .empty

/-- What several files contain together. -/
def joined (parts : List ByteArray) : ByteArray := parts.foldr (· ++ ·) .empty

theorem joined_append (as bs : List ByteArray) : joined (as ++ bs) = joined as ++ joined bs := by
  induction as with
  | nil => exact ByteArray.empty_append.symm
  | cons a as ih =>
      calc a ++ joined (as ++ bs) = a ++ (joined as ++ joined bs) := by rw [ih]
        _ = a ++ joined as ++ joined bs := ByteArray.append_assoc.symm

theorem joined_singleton (a : ByteArray) : joined [a] = a := ByteArray.append_empty

/-- The nodes of files that have been moved away from a place, and of what is in it now. -/
def chain (f : Store) (nodes : List Nat) (p : Place) : List Nat := nodes ++ (f.node? p).toList

/-- The file under a path has a place and a node. -/
def Names (f : Store) (path : String) (i : Nat) : Prop :=
  wantsDirectory path = false ∧ ∃ q, f.place path = .ok q ∧ f.node? q = some i

/-- The files that have been moved away from a path, together with the one that is there now, make up
a whole. -/
structure Holds (path : String) (p : Place) (targets : List String) (nodes : List Nat)
    (whole : ByteArray) (f : Store) : Prop where
  sound : f.Sound
  ready : f.Ready path p
  names : List.Forall₂ f.Names targets nodes
  file : ∀ i ∈ f.chain nodes p, ∃ bytes, f.bytes? i = some bytes
  nodup : (f.chain nodes p).Nodup
  whole : joined ((f.chain nodes p).map f.bytesAt) = whole

theorem read_eq_ok {bytes : ByteArray} (h : f.Names path i) (hi : f.bytes? i = some bytes) :
    f.read path = .ok bytes := by
  obtain ⟨hw, q, hq, hnode⟩ := h
  simp only [read, find, hq, hnode, hw, hi, bind, Except.bind, Bool.false_and, Bool.false_eq_true,
    if_false]

theorem contents_eq {bytes : ByteArray} (h : f.Names path i) (hi : f.bytes? i = some bytes) :
    f.contents path = f.bytesAt i := by
  rw [contents, read_eq_ok h hi, bytesAt, hi]
  rfl

theorem contents_of_free (hplace : f.place path = .ok p) (hp : f.node? p = none) :
    f.contents path = .empty := by
  have hread : f.read path = .error .notFound := by
    simp only [read, find, hplace, hp, bind, Except.bind]
  rw [contents, hread]
  rfl

/-- Files that keep their directories and their entries keep their paths. -/
theorem names_grows (h : List.Forall₂ f.Names targets nodes) (hg : Grows f g)
    (hnode : ∀ q i, i ∈ nodes → f.node? q = some i → g.node? q = some i) :
    List.Forall₂ g.Names targets nodes := by
  have hmem : List.Forall₂ (fun m i => i ∈ nodes ∧ f.Names m i) targets nodes :=
    .flip ((List.forall₂_and_left _ _).2 ⟨fun _ hi => hi, .flip h⟩)
  refine hmem.imp ?_
  rintro m i ⟨hi, hw, q, hq, hqi⟩
  exact ⟨hw, q, place_grows hq hg, hnode q i hi hqi⟩

namespace Holds

/-- The whole can be read from the files. -/
theorem stream (h : f.Holds path p targets nodes whole) :
    (∀ m ∈ targets, (f.read m).isOk = true) ∧
      joined (targets.map f.contents) ++ f.contents path = whole := by
  have hmoved : (∀ m ∈ targets, (f.read m).isOk = true) ∧
      targets.map f.contents = nodes.map f.bytesAt := by
    have hfile : ∀ i ∈ nodes, ∃ bytes, f.bytes? i = some bytes := fun i hi =>
      h.file i (List.mem_append_left _ hi)
    -- the paths and the nodes go side by side
    have hnames := h.names
    clear h
    induction hnames with
    | nil => exact ⟨fun m hm => (nomatch hm), rfl⟩
    | @cons m i targets nodes hname _ ih =>
        obtain ⟨bytes, hi⟩ := hfile i List.mem_cons_self
        obtain ⟨hread, hmap⟩ := ih fun j hj => hfile j (List.mem_cons_of_mem i hj)
        refine ⟨fun m' hm' => ?_, ?_⟩
        · rcases List.mem_cons.1 hm' with rfl | hm'
          · rw [read_eq_ok hname hi]
            rfl
          · exact hread m' hm'
        · rw [List.map_cons, List.map_cons, hmap, contents_eq hname hi]
  refine ⟨hmoved.1, ?_⟩
  have hhere : f.contents path = joined ((f.node? p).toList.map f.bytesAt) := by
    cases hp : f.node? p with
    | none => exact contents_of_free h.ready.place hp
    | some i =>
        obtain ⟨bytes, hi⟩ := h.file i (List.mem_append_right _ (by simp [hp]))
        rw [contents_eq ⟨h.ready.file, p, h.ready.place, hp⟩ hi]
        exact (joined_singleton _).symm
  calc joined (targets.map f.contents) ++ f.contents path
      = joined (nodes.map f.bytesAt) ++ joined ((f.node? p).toList.map f.bytesAt) := by
        rw [hmoved.2, hhere]
    _ = joined ((f.chain nodes p).map f.bytesAt) := by
        rw [chain, List.map_append, joined_append]
    _ = whole := h.whole

theorem alike (h : f.Holds path p targets nodes whole) (hg : Alike f g) :
    g.Holds path p targets nodes whole := by
  have hchain : g.chain nodes p = f.chain nodes p := by rw [chain, chain, hg.node?]
  have htext : g.bytesAt = f.bytesAt := funext fun i => by rw [bytesAt, bytesAt, hg.bytes?]
  constructor
  case sound => exact h.sound.alike hg
  case ready => exact h.ready.grows hg.grows
  case names => exact names_grows h.names hg.grows fun q i _ hq => (hg.node? q).trans hq
  case file =>
    intro i hi
    rw [hg.bytes?]
    exact h.file i (hchain ▸ hi)
  case nodup => exact hchain ▸ h.nodup
  case whole => rw [hchain, htext, h.whole]

/-- Appending to the last of the files appends to the whole. -/
theorem append (h : f.Holds path p targets nodes whole)
    (hlast : (f.chain nodes p).getLast? = some k) (text : String) :
    (f.append k text).Holds path p targets nodes (whole ++ text.toUTF8) := by
  obtain ⟨before, hbefore⟩ := List.getLast?_eq_some_iff.1 hlast
  obtain ⟨old, hk⟩ := h.file k (hbefore ▸ List.mem_append_right _ List.mem_cons_self)
  have hchain : (f.append k text).chain nodes p = f.chain nodes p := by
    rw [chain, chain, node?_append hk]
  have hgrows := grows_append hk text
  constructor
  case sound => exact h.sound.append hk text
  case ready => exact h.ready.grows hgrows
  case names => exact names_grows h.names hgrows fun q i _ hq => (node?_append hk text q).trans hq
  case file =>
    intro i hi
    rw [bytes?_append hk]
    split
    · exact ⟨_, rfl⟩
    · exact h.file i (hchain ▸ hi)
  case nodup => exact hchain ▸ h.nodup
  case whole =>
    -- no node is among the files twice, so those before the last one keep their texts
    have hother : ∀ i ∈ before, (f.append k text).bytesAt i = f.bytesAt i := by
      intro i hi
      have hne : i ≠ k := by
        have hnodup := h.nodup
        rw [hbefore] at hnodup
        exact (List.nodup_append.1 hnodup).2.2 i hi k List.mem_cons_self
      rw [bytesAt, bytesAt, bytes?_append hk, if_neg hne]
    have hhere : (f.append k text).bytesAt k = f.bytesAt k ++ text.toUTF8 := by
      rw [bytesAt, bytesAt, bytes?_append hk, if_pos rfl, hk]
      rfl
    calc joined (((f.append k text).chain nodes p).map (f.append k text).bytesAt)
        = joined (before.map f.bytesAt) ++ (f.bytesAt k ++ text.toUTF8) := by
          rw [hchain, hbefore, List.map_append, List.map_congr_left hother, joined_append,
            List.map_singleton, joined_singleton, hhere]
      _ = joined ((f.chain nodes p).map f.bytesAt) ++ text.toUTF8 := by
          rw [hbefore, List.map_append, joined_append, List.map_singleton, joined_singleton,
            ByteArray.append_assoc]
      _ = whole ++ text.toUTF8 := by rw [h.whole]

/-- A file that is created is the last one, and empty. -/
theorem add (h : f.Holds path p targets nodes whole) (hp : f.node? p = none) :
    (f.add p (.file .empty)).1.Holds path p targets nodes whole ∧
      ((f.add p (.file .empty)).1.chain nodes p).getLast? = some f.nodes.size := by
  have hgrows : Grows f (f.add p (.file .empty)).1 :=
    ⟨working_add f p _, fun q hq => hasDirectory_add h.sound hp _ hq⟩
  have hchain : (f.add p (.file .empty)).1.chain nodes p = f.chain nodes p ++ [f.nodes.size] := by
    rw [chain, chain, node?_add hp, if_pos rfl, hp]
    simp
  -- the others are files already, which the number of the new node has not been
  have hfresh : ∀ i ∈ f.chain nodes p, i ≠ f.nodes.size := by
    rintro i hi rfl
    obtain ⟨bytes, hbytes⟩ := h.file _ hi
    cases hbytes.symm.trans f.bytes?_size
  have hnew : (f.add p (.file .empty)).1.bytes? f.nodes.size = some .empty := by
    simp [bytes?, nodes_add]
  refine ⟨?_, by rw [hchain]; simp⟩
  constructor
  case sound => exact h.sound.add hp (h.sound.parent_of_place h.ready.place hp) _
  case ready => exact h.ready.grows hgrows
  case names =>
    refine names_grows h.names hgrows fun q i _ hq => ?_
    have hne : q ≠ p := by
      rintro rfl
      cases hq.symm.trans hp
    rw [node?_add hp, if_neg hne, hq]
  case file =>
    intro i hi
    rw [hchain] at hi
    rcases List.mem_append.1 hi with hi | hi
    · rw [bytes?_add_of_ne _ _ _ (hfresh i hi)]
      exact h.file i hi
    · exact ⟨.empty, List.mem_singleton.1 hi ▸ hnew⟩
  case nodup =>
    rw [hchain]
    exact List.nodup_append.2 ⟨h.nodup, by simp, fun i hi j hj =>
      List.mem_singleton.1 hj ▸ hfresh i hi⟩
  case whole =>
    have hother : ∀ i ∈ f.chain nodes p, (f.add p (.file .empty)).1.bytesAt i = f.bytesAt i := by
      intro i hi
      rw [bytesAt, bytesAt, bytes?_add_of_ne _ _ _ (hfresh i hi)]
    rw [hchain, List.map_append, List.map_congr_left hother, joined_append, h.whole]
    simp [bytesAt, hnew, joined_singleton]

/-- A file that is moved away stays where it is among the others. -/
theorem moved (h : f.Holds path p targets nodes whole) {i : Nat} {bytes : ByteArray}
    (hp : f.HasFile p i bytes) (hplace : f.place target = .ok q) (hq : f.node? q = none)
    (hw : wantsDirectory target = false) :
    (f.moved p q).Holds path p (targets ++ [target]) (nodes ++ [i]) whole ∧
      (f.moved p q).chain (nodes ++ [i]) p = f.chain nodes p := by
  have hgrows := grows_moved h.sound hp hq
  have hnode := node?_moved h.sound hp hq
  have hne : p ≠ q := by
    rintro rfl
    cases hp.1.symm.trans hq
  -- the file changes over from the one under the path to those that have been moved
  have hchain : (f.moved p q).chain (nodes ++ [i]) p = f.chain nodes p := by
    rw [chain, chain, hnode, if_neg hne, if_pos rfl, hp.1]
    simp
  refine ⟨?_, hchain⟩
  constructor
  case sound => exact h.sound.moved hp hq (h.sound.parent_of_place hplace hq)
  case ready => exact h.ready.grows hgrows
  case names =>
    refine List.rel_append ?_ (.cons ⟨hw, q, place_grows hplace hgrows, ?_⟩ .nil)
    · refine names_grows h.names hgrows fun q' j hj hq' => ?_
      -- the nodes of the files that were moved before are others
      have hji : j ≠ i := (List.nodup_append.1 h.nodup).2.2 j hj i (by simp [hp.1])
      have hqq : q' ≠ q := by
        rintro rfl
        cases hq'.symm.trans hq
      have hqp : q' ≠ p := by
        rintro rfl
        exact hji (Option.some.inj (hq'.symm.trans hp.1))
      rw [hnode, if_neg hqq, if_neg hqp, hq']
    · rw [hnode, if_pos rfl]
  case file => exact fun j hj => h.file j (hchain ▸ hj)
  case nodup => exact hchain ▸ h.nodup
  case whole => exact hchain ▸ h.whole

/-- A file that is there and has never been moved. -/
theorem of_file (hf : f.Sound) (hr : f.Ready path p) (hp : f.node? p = some i)
    (hd : f.isDirectory i = false) : f.Holds path p [] [] (f.bytesAt i) := by
  obtain ⟨bytes, -, hbytes⟩ := hf.bytes_of_file hp hd
  have hchain : f.chain [] p = [i] := by simp [chain, hp]
  refine ⟨hf, hr, .nil, fun j hj => ⟨bytes, ?_⟩, by rw [hchain]; simp, ?_⟩
  · rw [hchain] at hj
    rw [List.mem_singleton.1 hj, hbytes]
  · rw [hchain]
    exact joined_singleton _

/-- A file that is not there. -/
theorem of_free (hf : f.Sound) (hr : f.Ready path p) (hp : f.node? p = none) :
    f.Holds path p [] [] .empty := by
  have hchain : f.chain [] p = [] := by simp [chain, hp]
  refine ⟨hf, hr, .nil, fun j hj => ?_, by rw [hchain]; simp, by rw [hchain]; rfl⟩
  rw [hchain] at hj
  cases hj

end Holds

end ConfigLog.Files.Store

namespace ConfigLog.Logging.State

open Files.Store (contents joined)

variable {s t : State} {i : AppenderId} {path target : String} {p : Files.Place}
  {targets texts : List String} {nodes : List Nat} {whole : ByteArray}

/-! ## What an appender does to its file -/

/-- The sink of an appender, while it is in order. -/
def sink? (s : State) (i : AppenderId) : Option Sink :=
  (s.appenders[i]?.filter (·.broken.isNone)).map (·.sink)

/-- Gives a text to the sink of an appender. -/
def write (s : State) (i : AppenderId) (text : String) : State × Except String (Option String) :=
  match s.appenders[i]? with
  | none => (s, .ok none)
  | some x => s.give i x text

/-- Somebody asks an appender to open its path again, and nothing is reported about it. -/
def reopenQuietly (s : State) (i : AppenderId) : State := (s.reopenWith (fun _ u => u) i).1

/-- Somebody moves a file. -/
def move (s : State) (path target : String) : State × Except Files.FileError Unit :=
  let (files, result) := s.files.rename path target
  ({ s with files }, result)

/-- What may become of the file of an appender, with the paths it has been moved to and the texts that
have been taken, both in order. What is reported about it is left aside: a record that comes back to
the appender is one more text. -/
inductive Rotation (i : AppenderId) (path : String) (s : State) :
    List String → List String → State → Prop
  | start : Rotation i path s [] [] s
  | write {targets texts : List String} {t : State} (h : Rotation i path s targets texts t)
    (text : String) : Rotation i path s targets
      (texts ++ if (t.write i text).2.isOk then [text] else []) (t.write i text).1
  | reopen {targets texts : List String} {t : State} (h : Rotation i path s targets texts t) :
    Rotation i path s targets texts (t.reopenQuietly i)
  /-- The file is moved to a path under which there is nothing. -/
  | move {targets texts : List String} {t : State} (h : Rotation i path s targets texts t)
    (target : String) (hfree : ∀ q, t.files.place target = .ok q → t.files.node? q = none) :
    Rotation i path s (targets ++ if (t.move path target).2.isOk then [target] else []) texts
      (t.move path target).1
  /-- Something happens that concerns neither the files nor the sink, which stays in order. -/
  | meanwhile {targets texts : List String} {t u : State} (h : Rotation i path s targets texts t)
    (hfiles : u.files = t.files) (hsink : u.sink? i = t.sink? i) : Rotation i path s targets texts u

theorem sink?_eq_some {sink : Sink} :
    s.sink? i = some sink ↔ ∃ x, s.appenders[i]? = some x ∧ x.broken = none ∧ x.sink = sink := by
  simp [sink?, and_assoc]

theorem sink?_modifyAppender {sink : Sink} (h : s.sink? i = some sink) (new : Sink) :
    (s.modifyAppender i ({ · with sink := new })).sink? i = some new := by
  obtain ⟨x, hx, hbroken, -⟩ := sink?_eq_some.1 h
  exact sink?_eq_some.2 ⟨{ x with sink := new },
    by simp [modifyAppender, Array.getElem?_modify, hx], hbroken, rfl⟩

/-- Opening the path again: the sink holds the file if there is one. -/
theorem openAgain_eq {sink : Sink} (hsink : s.sink? i = some sink) {g : Files.Store}
    {result : Except Files.FileError Nat} (hopen : s.files.openAppend path = (g, result)) :
    (s.openAgain i path).2 = result ∧ (s.openAgain i path).1.files = g ∧
      (s.openAgain i path).1.sink? i = some (.file path result.toOption) := by
  have hnew : ∀ handle : Option Nat,
      (({ s with files := g }).modifyAppender i ({ · with sink := .file path handle })).sink? i
        = some (.file path handle) := fun handle =>
    sink?_modifyAppender (s := { s with files := g }) hsink _
  unfold openAgain
  rw [hopen]
  cases result with
  | error e => exact ⟨rfl, rfl, hnew none⟩
  | ok k => exact ⟨rfl, rfl, hnew (some k)⟩

theorem write_held {k : Nat} (hsink : s.sink? i = some (.file path (some k))) (text : String) :
    s.write i text = ({ s with files := s.files.append k text }, .ok none) := by
  obtain ⟨x, hx, hbroken, hfile⟩ := sink?_eq_some.1 hsink
  simp only [write, hx, give, hfile, hbroken]
  rfl

theorem write_refused {e : Files.FileError} (hsink : s.sink? i = some (.file path none))
    (h : (s.openAgain i path).2 = .error e) (text : String) :
    s.write i text = ((s.openAgain i path).1, .error e.message) := by
  obtain ⟨x, hx, hbroken, hfile⟩ := sink?_eq_some.1 hsink
  simp only [write, hx, give, hfile]
  generalize s.openAgain i path = opened at h ⊢
  obtain ⟨u, result⟩ := opened
  obtain rfl : result = .error e := h
  rfl

theorem write_opened {k : Nat} (hsink : s.sink? i = some (.file path none))
    (h : (s.openAgain i path).2 = .ok k) (text : String) :
    s.write i text = ({ (s.openAgain i path).1 with
      files := (s.openAgain i path).1.files.append k text }, .ok (some path)) := by
  obtain ⟨x, hx, hbroken, hfile⟩ := sink?_eq_some.1 hsink
  simp only [write, hx, give, hfile, hbroken]
  generalize s.openAgain i path = opened at h ⊢
  obtain ⟨u, result⟩ := opened
  obtain rfl : result = .ok k := h
  rfl

/-! ## What others do to the appender -/

/-- Asking the appender to open its path again opens it, whatever is reported about it then. -/
theorem reopenWith_eq {handle : Option Nat} (hsink : s.sink? i = some (.file path handle))
    (report : Report) :
    (s.reopenWith report i).2.isOk = (s.openAgain i path).2.isOk ∧
      (s.reopenWith report i).1 = if (s.openAgain i path).2.isOk
        then report (reopenedRecord path) (s.openAgain i path).1 else (s.openAgain i path).1 := by
  obtain ⟨⟨sink, level, pattern, own, broken⟩, hx, -, rfl⟩ := sink?_eq_some.1 hsink
  unfold reopenWith
  rw [hx]
  simp only
  obtain ⟨u, e | k⟩ := s.openAgain i path <;> exact ⟨rfl, rfl⟩

theorem reopenQuietly_eq {handle : Option Nat} (hsink : s.sink? i = some (.file path handle)) :
    s.reopenQuietly i = (s.openAgain i path).1 := by
  rw [reopenQuietly, (reopenWith_eq hsink _).2, ite_self]

/-- To open the path again is to do so quietly, and then to tell the facade if that went well. -/
theorem reopen_eq {handle : Option Nat} (hsink : s.sink? i = some (.file path handle)) :
    (s.reopen i).2.isOk = (s.openAgain i path).2.isOk ∧
      (s.reopen i).1 = if (s.reopen i).2.isOk then (s.reopenQuietly i).emit (reopenedRecord path)
        else s.reopenQuietly i := by
  obtain ⟨hok, hstate⟩ := reopenWith_eq hsink fun r s => s.emit r
  refine ⟨hok, ?_⟩
  rw [reopenQuietly_eq hsink, reopen, hstate, hok]

/-- Handing an event to the appender gives the line for it to the sink, and leaves files and sinks
alone otherwise, as long as nothing is reported. -/
theorem hand_eq_write {x : Appender} (hx : s.appenders[i]? = some x) {level : Level}
    (haccepts : x.accepts level = true) (logger : String) (e : Event) :
    let text := x.pattern.render s.times logger level e
    let handed := s.hand (fun _ u => u) i logger level e
    handed.2.isOk = (s.write i text).2.isOk ∧ handed.1.files = (s.write i text).1.files ∧
      handed.1.sink? i = (s.write i text).1.sink? i := by
  simp only [hand, hx, haccepts, if_true, write]
  generalize s.give i x _ = given
  obtain ⟨u, reason | reopened⟩ := given
  · exact ⟨rfl, rfl, rfl⟩
  · cases reopened <;> exact ⟨rfl, rfl, rfl⟩

/-! ## One operation -/

/-- The appender goes on writing to the last of the files, or holds none of them. -/
structure Follows (i : AppenderId) (path : String) (p : Files.Place) (targets : List String)
    (nodes : List Nat) (whole : ByteArray) (t : State) : Prop where
  holds : t.files.Holds path p targets nodes whole
  sink : ∃ handle, t.sink? i = some (.file path handle) ∧
    ∀ k, handle = some k → (t.files.chain nodes p).getLast? = some k

/-- A text has been appended to one file, which may have been created for it, and no other file has
changed. -/
def Appended (f g : Files.Store) (text : String) : Prop :=
  ∃ k, g.bytes? k = some (f.bytesAt k ++ text.toUTF8) ∧ ∀ j, j ≠ k → g.bytes? j = f.bytes? j

theorem appended_append {f g : Files.Store} {k : Nat} {old : ByteArray}
    (hk : f.bytes? k = some old)
    (hold : old = g.bytesAt k) (hothers : ∀ j, j ≠ k → f.bytes? j = g.bytes? j) (text : String) :
    Appended g (f.append k text) text := by
  refine ⟨k, by rw [Files.Store.bytes?_append hk, if_pos rfl, hold], fun j hj => ?_⟩
  rw [Files.Store.bytes?_append hk, if_neg hj, hothers j hj]

/-- What opening the path again does. No file changes; at most an empty file is created. -/
theorem Follows.openAgain (h : t.Follows i path p targets nodes whole) :
    (t.openAgain i path).1.Follows i path p targets nodes whole ∧
    ((∃ e g, t.files.openAppend path = (g, .error e) ∧ (t.openAgain i path).2 = .error e ∧
        (t.openAgain i path).1.files = g ∧ ∀ j, g.bytes? j = t.files.bytes? j) ∨
      ∃ k g, t.files.openAppend path = (g, .ok k) ∧ (t.openAgain i path).2 = .ok k ∧
        (t.openAgain i path).1.files = g ∧ (g.chain nodes p).getLast? = some k ∧
        g.bytesAt k = t.files.bytesAt k ∧ ∀ j, j ≠ k → g.bytes? j = t.files.bytes? j) := by
  obtain ⟨handle, hsink, -⟩ := h.sink
  obtain ⟨e, g, hopen, halike⟩ | ⟨k, g, hopen, hnode, -, halike⟩ | ⟨g, hopen, hfree, halike⟩ :=
    h.holds.ready.openAppend
  all_goals
    obtain ⟨hresult, hfiles, hnew⟩ := openAgain_eq hsink hopen
  case inl =>
    -- no file is held, and none has changed
    have hholds := h.holds.alike halike
    refine ⟨⟨hfiles ▸ hholds, none, hnew, fun k hk => nomatch hk⟩, ?_⟩
    exact .inl ⟨e, g, hopen, hresult, hfiles, halike.bytes?⟩
  case inr.inl =>
    -- the file was there already, and is the last one
    have hholds := h.holds.alike halike
    have hlast : (g.chain nodes p).getLast? = some k := by
      rw [Files.Store.chain, halike.node?, hnode]
      simp
    refine ⟨⟨hfiles ▸ hholds, some k, hnew, fun k' hk => ?_⟩, ?_⟩
    · rw [hfiles, hlast, hk]
    · refine .inr ⟨k, g, hopen, hresult, hfiles, hlast, ?_, fun j _ => halike.bytes? j⟩
      rw [Files.Store.bytesAt, Files.Store.bytesAt, halike.bytes?]
  case inr.inr =>
    -- an empty file has been created behind the others
    obtain ⟨hadded, hchain⟩ := h.holds.add hfree
    have hlast : (g.chain nodes p).getLast? = some t.files.nodes.size := by
      rw [Files.Store.chain, halike.node?]
      exact hchain
    refine ⟨⟨hfiles ▸ hadded.alike halike, some _, hnew, fun k' hk => ?_⟩, ?_⟩
    · rw [hfiles, hlast, hk]
    · refine .inr ⟨_, g, hopen, hresult, hfiles, hlast, ?_, fun j hj => ?_⟩
      · rw [Files.Store.bytesAt, Files.Store.bytesAt, halike.bytes?, t.files.bytes?_size]
        simp [Files.Store.bytes?, Files.Store.nodes_add]
      · rw [halike.bytes?, Files.Store.bytes?_add_of_ne _ _ _ hj]

/-- Appending to the file that is held. -/
theorem Follows.append (h : t.Follows i path p targets nodes whole) {k : Nat}
    (hsink : t.sink? i = some (.file path (some k))) (text : String) :
    ({ t with files := t.files.append k text } : State).Follows i path p targets nodes
      (whole ++ text.toUTF8) ∧ ∃ old, t.files.bytes? k = some old := by
  obtain ⟨handle, hsink', hlast⟩ := h.sink
  obtain ⟨-, rfl⟩ := Sink.file.inj (Option.some.inj (hsink.symm.trans hsink'))
  have hlast := hlast k rfl
  obtain ⟨before, hchain⟩ := List.getLast?_eq_some_iff.1 hlast
  obtain ⟨old, hold⟩ := h.holds.file k (hchain ▸ List.mem_append_right _ List.mem_cons_self)
  refine ⟨⟨h.holds.append hlast text, some k, hsink, fun k' hk' => ?_⟩, old, hold⟩
  obtain rfl := Option.some.inj hk'
  have hsame : (t.files.append k text).chain nodes p = t.files.chain nodes p := by
    rw [Files.Store.chain, Files.Store.chain, Files.Store.node?_append hold]
  exact hsame ▸ hlast

/-- What giving a text to the sink does: it is appended, or no file changes. -/
theorem Follows.write (h : t.Follows i path p targets nodes whole) (text : String) :
    ((t.write i text).2.isOk = true ∧ Appended t.files (t.write i text).1.files text ∧
      (t.write i text).1.Follows i path p targets nodes (whole ++ text.toUTF8)) ∨
    (t.write i text).2.isOk = false ∧ (∀ j, (t.write i text).1.files.bytes? j = t.files.bytes? j) ∧
      (t.write i text).1.Follows i path p targets nodes whole := by
  obtain ⟨handle, hsink, -⟩ := h.sink
  cases handle with
  | some k =>
      obtain ⟨hfollows, old, hold⟩ := h.append hsink text
      rw [write_held hsink]
      refine .inl ⟨rfl, appended_append hold ?_ (fun j _ => rfl) text, hfollows⟩
      rw [Files.Store.bytesAt, hold]
      rfl
  | none =>
      obtain ⟨hfollows, ⟨e, g, -, hresult, hfiles, hsame⟩ |
        ⟨k, g, hopen, hresult, hfiles, -, hk, hothers⟩⟩ := h.openAgain
      · rw [write_refused hsink hresult]
        exact .inr ⟨rfl, hfiles ▸ hsame, hfollows⟩
      · obtain ⟨-, -, hnew⟩ := openAgain_eq hsink hopen
        obtain ⟨hfollows, old, hold⟩ := hfollows.append hnew text
        rw [write_opened hsink hresult]
        refine .inl ⟨rfl, appended_append hold ?_ (hfiles ▸ hothers) text, hfollows⟩
        rw [← hk, ← hfiles, Files.Store.bytesAt, hold]
        rfl

/-- What moving the file away does: it stays among the others. -/
theorem Follows.move (h : t.Follows i path p targets nodes whole)
    (hfree : ∀ q, t.files.place target = .ok q → t.files.node? q = none) : ∃ nodes',
    (t.move path target).1.Follows i path p
      (targets ++ if (t.move path target).2.isOk then [target] else []) nodes' whole := by
  obtain ⟨handle, hsink, hlast⟩ := h.sink
  have hfile : ∀ k, t.files.node? p = some k → t.files.isDirectory k = false := by
    intro k hk
    obtain ⟨bytes, hbytes⟩ := h.holds.file k (List.mem_append_right _ (by simp [hk]))
    exact Files.Store.isDirectory_of_bytes? hbytes
  unfold State.move
  obtain ⟨e, hrename⟩ | ⟨k, bytes, q, g, hrename, hp, hplace, hq, hw, halike⟩ :=
    Files.Store.rename_cases h.holds.sound h.holds.ready.place hfile hfree
  · rw [hrename]
    exact ⟨nodes, by simpa [Except.isOk, Except.toBool] using h⟩
  · obtain ⟨hmoved, hchain⟩ := h.holds.moved hp hplace hq hw
    have hsame : g.chain (nodes ++ [k]) p = t.files.chain nodes p := by
      rw [← hchain, Files.Store.chain, Files.Store.chain, halike.node?]
    rw [hrename]
    refine ⟨nodes ++ [k], hmoved.alike halike, handle, hsink, fun k' hk' => ?_⟩
    exact hsame ▸ hlast k' hk'

/-! ## Whole runs -/

/-- However it goes, the files make up what there was at the start and all texts that have been
taken. -/
theorem Rotation.follows (hs : s.Follows i path p [] [] whole)
    (h : Rotation i path s targets texts t) :
    ∃ nodes, t.Follows i path p targets nodes (whole ++ (String.join texts).toUTF8) := by
  -- on the run, with the files that have been moved so far
  induction h with
  | start => exact ⟨[], by simpa using hs⟩
  | @write targets texts t h text ih =>
      obtain ⟨nodes, ht⟩ := ih
      obtain ⟨hok, -, hfollows⟩ | ⟨hok, -, hfollows⟩ := ht.write text
      · refine ⟨nodes, ?_⟩
        rw [hok, if_pos rfl, String.join_append, String.toUTF8_eq_toByteArray,
          String.toByteArray_append, ← ByteArray.append_assoc]
        simpa using hfollows
      · refine ⟨nodes, ?_⟩
        simpa [hok] using hfollows
  | reopen _ ih =>
      obtain ⟨nodes, ht⟩ := ih
      obtain ⟨handle, hsink, -⟩ := ht.sink
      exact ⟨nodes, reopenQuietly_eq hsink ▸ ht.openAgain.1⟩
  | move _ target hfree ih =>
      obtain ⟨nodes, ht⟩ := ih
      exact ht.move hfree
  | meanwhile _ hfiles hsink ih =>
      obtain ⟨nodes, ht⟩ := ih
      obtain ⟨handle, hheld, hlast⟩ := ht.sink
      exact ⟨nodes, hfiles ▸ ht.holds, handle, hsink.trans hheld, hfiles ▸ hlast⟩

/-- A new appender holds the file under its path. -/
theorem newAppender_file {s₀ : State} (h : s₀.newAppender (.file path) = (s, .ok i)) :
    ∃ k, s₀.files.openAppend path = (s.files, .ok k) ∧ s.sink? i = some (.file path (some k)) := by
  unfold newAppender openSink at h
  rcases hopen : s₀.files.openAppend path with ⟨g, e | k⟩
  · simp only [hopen] at h
    cases h
  · simp only [hopen] at h
    obtain ⟨rfl, hi⟩ := Prod.mk.inj h
    obtain rfl := Except.ok.inj hi
    exact ⟨k, rfl, by simp [sink?, addAppender]⟩

theorem follows_newAppender {s₀ : State} (hs : s₀.files.Sound)
    (h : s₀.newAppender (.file path) = (s, .ok i)) :
    ∃ p, s.Follows i path p [] [] (contents s.files path) ∧
      (s₀.files.node? p = none → contents s.files path = .empty) := by
  obtain ⟨k, hopen, hsink⟩ := newAppender_file h
  obtain ⟨f, p, hf, hwidens, hready, hcases⟩ := hs.ready_of_openAppend hopen
  have hstart : ∃ whole, s.files.Holds path p [] [] whole ∧
      (s.files.chain [] p).getLast? = some k ∧ (s₀.files.node? p = none → whole = .empty) := by
    obtain ⟨hk, hd, halike⟩ | ⟨hfree, rfl, hfiles⟩ := hcases
    · refine ⟨_, (Files.Store.Holds.of_file hf hready hk hd).alike halike, ?_, fun hnone => ?_⟩
      · simp [Files.Store.chain, halike.node?, hk]
      · -- what is new there are directories
        rcases hwidens.added p k hk with hk | hdirectory
        · cases hk.symm.trans hnone
        · exact absurd (hd.symm.trans hdirectory) nofun
    · obtain ⟨hadded, hlast⟩ := (Files.Store.Holds.of_free hf hready hfree).add hfree
      exact ⟨.empty, hfiles ▸ hadded, hfiles ▸ hlast, fun _ => rfl⟩
  obtain ⟨whole, hholds, hlast, hnone⟩ := hstart
  have hwhole : contents s.files path = whole := by
    have hstream := hholds.stream.2
    simpa [joined] using hstream
  rw [hwhole]
  exact ⟨p, ⟨hholds, some k, hsink, fun k' hk' => Option.some.inj hk' ▸ hlast⟩, hnone⟩

/-- What becomes of the texts that an appender is given while its file is moved away and its path is
opened again, in any order. -/
structure Rotates (s₀ s : State) (i : AppenderId) (path : String) : Prop where
  /-- The file is empty if it is the appender that has created it. -/
  created : ∀ p, s.files.place path = .ok p → s₀.files.node? p = none →
    contents s.files path = .empty
  /-- The files that have been moved away, in order, and the one under the path contain what was there
  at the start and all texts that have been taken, in order. -/
  stream : ∀ targets texts t, Rotation i path s targets texts t →
    (∀ m ∈ targets, (t.files.read m).isOk = true) ∧
      joined (targets.map (contents t.files)) ++ contents t.files path
        = contents s.files path ++ (String.join texts).toUTF8
  taken : ∀ targets texts t, Rotation i path s targets texts t → ∀ text,
    (t.write i text).2.isOk = true → Appended t.files (t.write i text).1.files text
  refused : ∀ targets texts t, Rotation i path s targets texts t → ∀ text,
    (t.write i text).2.isOk = false → ∀ j, (t.write i text).1.files.bytes? j = t.files.bytes? j
  sink : ∀ targets texts t, Rotation i path s targets texts t →
    ∃ handle, t.sink? i = some (.file path handle)
  held : ∀ targets texts t, Rotation i path s targets texts t → ∀ k text,
    t.sink? i = some (.file path (some k)) → (t.write i text).2.isOk = true
  /-- Somebody who asks the appender to open its path again is told whether it could be opened, and
  if it could the facade is told as well. That is all where there is no facade. -/
  reopened : ∀ targets texts t, Rotation i path s targets texts t →
    (t.reopen i).2.isOk = (t.files.openAppend path).2.isOk ∧
      Rotation i path s targets texts (t.reopenQuietly i) ∧
      ((t.reopen i).1 = if (t.reopen i).2.isOk
        then (t.reopenQuietly i).emit (reopenedRecord path) else t.reopenQuietly i) ∧
      (t.facade = none → Rotation i path s targets texts (t.reopen i).1)
  /-- Somebody who hands an event to the appender gives it the line for the event. -/
  handed : ∀ targets texts t, Rotation i path s targets texts t → ∀ x logger level e,
    t.appenders[i]? = some x → x.accepts level = true →
      (t.hand (fun _ u => u) i logger level e).2.isOk
        = (t.write i (x.pattern.render t.times logger level e)).2.isOk ∧
      Rotation i path s targets
        (texts ++ if (t.write i (x.pattern.render t.times logger level e)).2.isOk
          then [x.pattern.render t.times logger level e] else [])
        (t.hand (fun _ u => u) i logger level e).1
  /-- While no file is held, each text makes the appender try to open the path first. -/
  tries : ∀ targets texts t, Rotation i path s targets texts t → ∀ text,
    t.sink? i = some (.file path none) →
      (t.write i text).2.isOk = (t.files.openAppend path).2.isOk ∧
        (t.write i text).1.files = match t.files.openAppend path with
          | (g, .ok k) => g.append k text
          | (g, .error _) => g

theorem rotates {s₀ : State} (hs : s₀.files.Sound)
    (h : s₀.newAppender (.file path) = (s, .ok i)) : Rotates s₀ s i path := by
  obtain ⟨p, hfollows, hcreated⟩ := follows_newAppender hs h
  constructor
  case created =>
    intro q hq hnone
    obtain rfl := Except.ok.inj (hfollows.holds.ready.place.symm.trans hq)
    exact hcreated hnone
  case stream =>
    intro targets texts t hrun
    obtain ⟨nodes, ht⟩ := hrun.follows hfollows
    exact ht.holds.stream
  case taken =>
    intro targets texts t hrun text hok
    obtain ⟨nodes, ht⟩ := hrun.follows hfollows
    obtain ⟨-, happended, -⟩ | ⟨hno, -⟩ := ht.write text
    · exact happended
    · cases hok.symm.trans hno
  case refused =>
    intro targets texts t hrun text hno
    obtain ⟨nodes, ht⟩ := hrun.follows hfollows
    obtain ⟨hok, -⟩ | ⟨-, hsame, -⟩ := ht.write text
    · cases hok.symm.trans hno
    · exact hsame
  case sink =>
    intro targets texts t hrun
    obtain ⟨nodes, ht⟩ := hrun.follows hfollows
    obtain ⟨handle, hsink, -⟩ := ht.sink
    exact ⟨handle, hsink⟩
  case held =>
    intro targets texts t hrun k text hsink
    rw [write_held hsink]
    rfl
  case reopened =>
    intro targets texts t hrun
    obtain ⟨nodes, ht⟩ := hrun.follows hfollows
    obtain ⟨handle, hsink, -⟩ := ht.sink
    obtain ⟨hok, hstate⟩ := reopen_eq hsink
    rcases hopen : t.files.openAppend path with ⟨g, result⟩
    refine ⟨hok.trans (congrArg _ (openAgain_eq hsink hopen).1), hrun.reopen, hstate,
      fun hfacade => ?_⟩
    -- there is nobody to tell
    have hsame : (t.reopenQuietly i).facade = none := by
      rw [reopenQuietly_eq hsink, openAgain]
      split <;> exact hfacade
    rw [hstate, emit_of_facade_eq_none hsame, ite_self]
    exact hrun.reopen
  case handed =>
    intro targets texts t hrun x logger level e hx haccepts
    obtain ⟨hresult, hfiles, hsink⟩ := hand_eq_write hx haccepts logger e
    exact ⟨hresult, (hrun.write _).meanwhile hfiles hsink⟩
  case tries =>
    intro targets texts t hrun text hsink
    rcases hopen : t.files.openAppend path with ⟨g, e | k⟩
    · obtain ⟨hresult, hfiles, -⟩ := openAgain_eq hsink hopen
      rw [write_refused hsink hresult]
      exact ⟨rfl, hfiles⟩
    · obtain ⟨hresult, hfiles, -⟩ := openAgain_eq hsink hopen
      rw [write_opened hsink hresult, hfiles]
      exact ⟨rfl, rfl⟩

/-- A file system that turns down the second request to open a file. -/
def faulty : State := { files := { Files.Store.start [] with refuses := fun n _ => n == 1 } }

/-- A new appender writes to its file. -/
def holding : State := ((faulty.newAppender (.file "app.log")).1.write 0 "a").1

/-- The file is moved away and written to once more, and then its path cannot be opened. -/
def closed : State := ((holding.move "app.log" "old.log").1.write 0 "b").1.reopenQuietly 0

theorem rotation_closed : Rotation 0 "app.log" (faulty.newAppender (.file "app.log")).1
    ["old.log"] ["a", "b"] closed := by
  have hfirst : Rotation 0 "app.log" (faulty.newAppender (.file "app.log")).1 [] ["a"] holding :=
    Rotation.start.write "a"
  have hfree : ∀ q, holding.files.place "old.log" = .ok q → holding.files.node? q = none := by
    intro q hq
    have hplace : holding.files.place "old.log" = .ok ["old.log"] := by rfl
    obtain rfl := Except.ok.inj (hplace.symm.trans hq)
    decide +kernel
  have hmoved : Rotation 0 "app.log" (faulty.newAppender (.file "app.log")).1 ["old.log"] ["a"]
      (holding.move "app.log" "old.log").1 := hfirst.move "old.log" hfree
  have hbehind : Rotation 0 "app.log" (faulty.newAppender (.file "app.log")).1 ["old.log"] ["a", "b"]
      ((holding.move "app.log" "old.log").1.write 0 "b").1 := hmoved.write "b"
  exact hbehind.reopen

theorem rotates_faulty : faulty.files.Sound ∧
    faulty.newAppender (.file "app.log") = ((faulty.newAppender (.file "app.log")).1, .ok 0) ∧
    closed.sink? 0 = some (.file "app.log" none) ∧
    (closed.write 0 "c").2.isOk = true ∧
    contents (closed.write 0 "c").1.files "old.log" ++ contents (closed.write 0 "c").1.files "app.log"
      = ("a" ++ "b" ++ "c").toUTF8 := by
  have hsound : faulty.files.Sound := (Files.Store.sound_start []).alike ⟨rfl, rfl, rfl⟩
  have hnew : faulty.newAppender (.file "app.log")
      = ((faulty.newAppender (.file "app.log")).1, .ok 0) := by rfl
  have hlaw : Rotates faulty (faulty.newAppender (.file "app.log")).1 0 "app.log" :=
    rotates hsound hnew
  have hheld : closed.sink? 0 = some (.file "app.log" none) := by decide +kernel
  have hopens : (closed.files.openAppend "app.log").2.isOk = true := by decide +kernel
  have hok : (closed.write 0 "c").2.isOk = true := by
    rw [(hlaw.tries _ _ _ rotation_closed "c" hheld).1, hopens]
  have hempty : contents (faulty.newAppender (.file "app.log")).1.files "app.log" = .empty :=
    hlaw.created ["app.log"] (by rfl) (by rfl)
  refine ⟨hsound, hnew, hheld, hok, ?_⟩
  have hrun := rotation_closed.write "c"
  rw [hok, if_pos rfl] at hrun
  have hstream := (hlaw.stream _ _ _ hrun).2
  rw [hempty] at hstream
  simpa [joined] using hstream

end ConfigLog.Logging.State
