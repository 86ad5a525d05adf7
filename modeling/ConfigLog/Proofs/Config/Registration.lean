import ConfigLog.Proofs.Config.Session

set_option autoImplicit false

/-! # The registry through all that is asked of it

Whatever is asked of a registry, every registered name is a proper name and that of its variable
(`WellNamed`), and until the registry is cleared the same variable stays under it, with its kind and
its description (`retains_askAll`). Since no improper name is ever registered, it makes no difference
that a name is looked up before it is checked: obtaining a variable refuses improper names first,
then other kinds (`obtains_obtain`).
-/

namespace ConfigLog.Config

/-! ## Proper names -/

/-- The text is a proper name: small letters, digits, dots and underscores, and at least one. -/
def IsName (name : String) : Prop :=
  name ≠ "" ∧ ∀ c ∈ name.toList,
    ('a' ≤ c ∧ c ≤ 'z') ∨ ('0' ≤ c ∧ c ≤ '9') ∨ c = '.' ∨ c = '_'

theorem isValidName_iff {name : String} : isValidName name = true ↔ IsName name := by
  simp [isValidName, IsName, isNameChar, Text.isDigit, or_assoc]

/-! ## Requests -/

/-- What is asked of a registry. -/
inductive Request where
  /-- Looks for a variable of a kind. -/
  | lookup (name : String) (kind : Kind)
  /-- Looks for a variable of any kind. -/
  | find (name : String)
  /-- Does an operation: obtains a variable, applies a document, clears the registry, or uses a
  variable. -/
  | operate (operation : Operation)

namespace State

/-- Does what is asked. -/
def ask (s : State) : Request → State
  | .lookup name kind => (s.lookup name kind).1
  | .find _ => s
  | .operate operation => s.operate operation

/-- Does all that is asked, one request after the other. -/
def askAll (s : State) (requests : List Request) : State := requests.foldl ask s

/-- A variable is registered under a name. -/
def Registers (s : State) (name : String) (v : VariableId) (x : Variable) : Prop :=
  s.names.lookup name = some v ∧ s.vars[v]? = some x

/-- Every registered name is a proper name and that of its variable. -/
def WellNamed (s : State) : Prop :=
  ∀ name v, s.names.lookup name = some v → IsName name ∧ ∃ x, s.vars[v]? = some x ∧ x.name = name

/-- Under every registered name the same variable stays, with its label. -/
def Retains (s t : State) : Prop :=
  ∀ name v x, s.Registers name v x → ∃ y, t.Registers name v y ∧ y.label = x.label

variable {s t u : State} {v : VariableId} {x : Variable} {name : String} {kind : Kind}

/-! ## What using variables keeps -/

/-- The same names are registered, and every variable has its label. -/
structure Labelled (s t : State) : Prop where
  names : t.names = s.names
  label : ∀ v : VariableId, (t.vars[v]?).map (·.label) = (s.vars[v]?).map (·.label)

theorem Labelled.trans (h : s.Labelled t) (h' : t.Labelled u) : s.Labelled u :=
  ⟨h'.names.trans h.names, fun v => (h'.label v).trans (h.label v)⟩

theorem Labelled.of_getElem? (h : s.Labelled t) (hx : s.vars[v]? = some x) :
    ∃ y, t.vars[v]? = some y ∧ y.label = x.label := by
  have hlabel := h.label v
  rw [hx, Option.map_some] at hlabel
  exact Option.map_eq_some_iff.1 hlabel

theorem labelled_of_eq (hnames : t.names = s.names) (hvars : t.vars = s.vars) : s.Labelled t :=
  ⟨hnames, fun v => by rw [hvars]⟩

theorem labelled_modify (s : State) (v : VariableId) {f : Variable → Variable}
    (hf : ∀ x, (f x).label = x.label) : s.Labelled (s.modify v f) :=
  ⟨rfl, fun _ => map_getElem?_modify (fun _ => hf) s⟩

theorem labelled_listen (s : State) (v : VariableId) (l : Listener) :
    s.Labelled (s.listen v l).1 := by
  have hnext : s.Labelled { s with nextListener := s.nextListener + 1 } := labelled_of_eq rfl rfl
  exact hnext.trans (labelled_modify _ v fun _ => rfl)

/-- The account that all variables keep their labels. -/
abbrev labels : Account := fun s _ t => s.Labelled t

theorem closed_labels : labels.Closed where
  start _ := labelled_of_eq rfl rfl
  append h h' := h.trans h'
  turn _ _ := labelled_of_eq rfl rfl
  remember _ _ := labelled_of_eq rfl rfl
  listen := labelled_listen
  unlisten s v _ := labelled_modify s v fun _ => rfl
  unlistenAll s v := labelled_modify s v fun _ => rfl

theorem rounds_labels : labels.Rounds where
  stuck _ := labelled_of_eq rfl rfl
  look {s t σ v x} l _ _ h := by
    have hpin : s.Labelled (s.pin v) := labelled_modify s v fun _ => rfl
    have hlisten := (hpin.trans h).trans (labelled_listen t v l)
    exact hlisten.trans (labelled_modify _ v fun _ => rfl)
  note _ _ := labelled_of_eq rfl rfl
  change {s t σ v x} new _ _ h := by
    have hmark : s.Labelled (s.mark v) := labelled_modify s v fun _ => rfl
    exact (hmark.trans h).trans (labelled_modify t v fun _ => rfl)

/-- Setting a variable changes no label, whatever its listeners do. -/
theorem labelled_assign : labels.Covers assign assignMoments :=
  Account.covers_assign closed_labels rounds_labels

theorem labelled_listenWith (s : State) (v : VariableId) (init : Value → Program) (l : Listener) :
    s.Labelled (s.listenWith v init l).1 :=
  Account.listenWith closed_labels rounds_labels.toLooks labelled_assign s v init l

/-! ## What obtaining a variable does -/

theorem expectKind_eq (hx : s.vars[v]? = some x) (name : String) (kind : Kind) :
    s.expectKind name v kind = if x.kind = kind then (s, .ok v)
      else (s.emit (mismatchRecord name x.kind kind), .error (.kindMismatch name x.kind kind)) := by
  simp only [expectKind, hx, beq_iff_eq]

theorem obtain_of_registers (h : s.Registers (normalName name) v x) (kind : Kind) (value : Value)
    (description : String) :
    (s.obtain name kind value description).1
      = { s with logging := (s.obtain name kind value description).1.logging } ∧
    (s.obtain name kind value description).2 = if x.kind = kind then .ok v
      else .error (.kindMismatch (normalName name) x.kind kind) := by
  have hobtain : s.obtain name kind value description
      = (s.emit (registeredRecord (normalName name))).expectKind (normalName name) v kind := by
    simp only [obtain, h.1]
  have hx : (s.emit (registeredRecord (normalName name))).vars[v]? = some x := h.2
  rw [hobtain, expectKind_eq hx]
  split <;> exact ⟨rfl, rfl⟩

theorem obtain_of_isName (hnone : s.names.lookup (normalName name) = none)
    (hname : IsName (normalName name)) (kind : Kind) (value : Value) (description : String) :
    s.obtain name kind value description
      = (s.register (.new name kind value description), .ok s.vars.size) := by
  simp only [obtain, hnone, isValidName_iff.2 hname, if_true, Variable.new, normalName_normalName]
  rfl

theorem obtain_of_not_isName (hnone : s.names.lookup (normalName name) = none)
    (hname : ¬ IsName (normalName name)) (kind : Kind) (value : Value) (description : String) :
    s.obtain name kind value description
      = (s.emit (refusedRecord (normalName name)), .error (.invalidName (normalName name))) := by
  have hvalid : isValidName (normalName name) = false := by
    rwa [← Bool.not_eq_true, isValidName_iff]
  simp only [obtain, hnone, hvalid, Bool.false_eq_true, if_false]

/-! ## What looking for a variable does -/

theorem lookup_fst (s : State) (name : String) (kind : Kind) :
    ∃ l, (s.lookup name kind).1 = { s with logging := l } := by
  unfold lookup
  cases s.find? name with
  | none => exact ⟨s.logging, rfl⟩
  | some v =>
      obtain ⟨l, -, hl⟩ := expectKind_fst s (normalName name) v kind
      exact ⟨l, hl⟩

theorem lookup_snd (hs : s.WellNamed) (name : String) (kind : Kind) :
    (s.lookup name kind).2 = some v ↔ ∃ x, s.Registers (normalName name) v x ∧ x.kind = kind := by
  cases hlookup : s.names.lookup (normalName name) with
  | none => simp [lookup, find?, Registers, hlookup]
  | some w =>
      obtain ⟨-, x, hx, -⟩ := hs _ w hlookup
      have hresult : (s.lookup name kind).2 = if x.kind = kind then some w else none := by
        simp only [lookup, find?, hlookup, expectKind_eq hx]
        split <;> rfl
      rw [hresult]
      constructor
      · intro h
        split at h
        · rename_i hkind
          obtain rfl := Option.some.inj h
          exact ⟨x, ⟨hlookup, hx⟩, hkind⟩
        · cases h
      · rintro ⟨y, ⟨hv, hy⟩, hkind⟩
        obtain rfl := Option.some.inj (hlookup.symm.trans hv)
        obtain rfl := Option.some.inj (hx.symm.trans hy)
        exact if_pos hkind

theorem find?_eq_some (hs : s.WellNamed) (name : String) :
    s.find? name = some v ↔ ∃ x, s.Registers (normalName name) v x := by
  constructor
  · intro h
    obtain ⟨-, x, hx, -⟩ := hs _ v h
    exact ⟨x, h, hx⟩
  · rintro ⟨x, h, -⟩
    exact h

/-! ## What one request does -/

/-- A request clears the registry, adds a variable, registers one under a proper name that was
free, or leaves names and labels alone. -/
theorem ask_cases (s : State) (request : Request) :
    s.Labelled (s.ask request) ∨
    (request = .operate .clear ∧ s.ask request = s.clear) ∨
    (∃ x, s.ask request = (s.add x).1) ∨
    ∃ x, IsName x.name ∧ s.names.lookup x.name = none ∧ s.ask request = s.register x := by
  cases request with
  | lookup name kind =>
      obtain ⟨l, hl⟩ := lookup_fst s name kind
      have hask : s.ask (.lookup name kind) = { s with logging := l } := hl
      exact .inl (hask ▸ labelled_of_eq rfl rfl)
  | find name => exact .inl (labelled_of_eq rfl rfl)
  | operate operation =>
      cases operation with
      | obtain name kind value description =>
          rcases s.obtain_cases name kind value description with ⟨l, -, hl⟩ | ⟨hnone, hregister⟩
          · have hask : s.ask (.operate (.obtain name kind value description))
                = { s with logging := l } := hl
            exact .inl (hask ▸ labelled_of_eq rfl rfl)
          · by_cases hname : IsName (normalName name)
            · exact .inr (.inr (.inr ⟨_, hname, hnone, hregister⟩))
            · refine .inl ?_
              show s.Labelled (s.obtain name kind value description).1
              rw [obtain_of_not_isName hnone hname]
              exact labelled_of_eq rfl rfl
      | create name kind value description => exact .inr (.inr (.inl ⟨_, rfl⟩))
      | clear => exact .inr (.inl ⟨rfl, rfl⟩)
      | set v value => exact .inl (labelled_assign s v value)
      | setText v text => exact .inl (Account.text closed_labels labelled_assign s v text)
      | setNode v n => exact .inl (Account.node closed_labels labelled_assign s v n)
      | load document => exact .inl (Account.load closed_labels labelled_assign s document)
      | listen v l => exact .inl (labelled_listen s v l)
      | listenWith v init l => exact .inl (labelled_listenWith s v init l)
      | unlisten v i => exact .inl (closed_labels.unlisten s v i)
      | unlistenAll v => exact .inl (closed_labels.unlistenAll s v)

theorem registers_register_self (s : State) (x : Variable) :
    (s.register x).Registers x.name s.vars.size x :=
  ⟨Keyed.lookup_insert_self x.name s.vars.size s.names, (getElem?_add s _ x).trans (if_pos rfl)⟩

theorem lookup_register_of_ne (s : State) {x : Variable} (hname : name ≠ x.name) :
    (s.register x).names.lookup name = s.names.lookup name :=
  Keyed.lookup_insert_of_ne hname s.vars.size s.names

theorem WellNamed.labelled (hs : s.WellNamed) (h : s.Labelled t) : t.WellNamed := by
  intro name v hlookup
  rw [h.names] at hlookup
  obtain ⟨hname, x, hx, rfl⟩ := hs name v hlookup
  obtain ⟨y, hy, hlabel⟩ := h.of_getElem? hx
  exact ⟨hname, y, hy, congrArg Prod.fst hlabel⟩

theorem WellNamed.register (hs : s.WellNamed) (hname : IsName x.name) :
    (s.register x).WellNamed := by
  intro name v hlookup
  by_cases hn : name = x.name
  · subst hn
    have hself := registers_register_self s x
    obtain rfl := Option.some.inj (hself.1.symm.trans hlookup)
    exact ⟨hname, x, hself.2, rfl⟩
  · rw [lookup_register_of_ne s hn] at hlookup
    obtain ⟨hproper, y, hy, hyname⟩ := hs name v hlookup
    exact ⟨hproper, y, getElem?_add_of_some hy, hyname⟩

theorem wellNamed_ask (hs : s.WellNamed) (request : Request) : (s.ask request).WellNamed := by
  rcases s.ask_cases request with h | ⟨-, h⟩ | ⟨x, h⟩ | ⟨x, hname, -, h⟩
  · exact hs.labelled h
  · rw [h]
    exact fun name v hlookup => by cases hlookup
  · rw [h]
    intro name v hlookup
    obtain ⟨hname, y, hy, hyname⟩ := hs name v hlookup
    exact ⟨hname, y, getElem?_add_of_some hy, hyname⟩
  · rw [h]
    exact hs.register hname

theorem wellNamed_askAll (hs : s.WellNamed) (requests : List Request) :
    (s.askAll requests).WellNamed := by
  induction requests generalizing s with
  | nil => exact hs
  | cons request requests ih => exact ih (wellNamed_ask hs request)

/-! ## What stays registered -/

theorem Retains.trans (h : s.Retains t) (h' : t.Retains u) : s.Retains u := by
  intro name v x hx
  obtain ⟨y, hy, hlabel⟩ := h name v x hx
  obtain ⟨z, hz, hlabel'⟩ := h' name v y hy
  exact ⟨z, hz, hlabel'.trans hlabel⟩

theorem Labelled.retains (h : s.Labelled t) : s.Retains t := by
  intro name v x hx
  obtain ⟨y, hy, hlabel⟩ := h.of_getElem? hx.2
  exact ⟨y, ⟨h.names ▸ hx.1, hy⟩, hlabel⟩

theorem retains_ask {request : Request} (h : request ≠ .operate .clear) :
    s.Retains (s.ask request) := by
  rcases s.ask_cases request with hask | ⟨hclear, -⟩ | ⟨x, hask⟩ | ⟨x, -, hfree, hask⟩
  · exact hask.retains
  · exact absurd hclear h
  · rw [hask]
    exact fun name v y hy => ⟨y, ⟨hy.1, getElem?_add_of_some hy.2⟩, rfl⟩
  · rw [hask]
    intro name v y hy
    -- the new name was free, so it is another one
    have hne : name ≠ x.name := by
      rintro rfl
      exact nomatch hfree.symm.trans hy.1
    exact ⟨y, ⟨(lookup_register_of_ne s hne).trans hy.1, getElem?_add_of_some hy.2⟩, rfl⟩

/-- What is registered stays so until the registry is cleared. -/
theorem retains_askAll (requests : List Request) (h : .operate .clear ∉ requests) :
    s.Retains (s.askAll requests) := by
  induction requests generalizing s with
  | nil => exact fun name v x hx => ⟨x, hx, rfl⟩
  | cons request requests ih =>
      have hne : request ≠ .operate .clear := fun hr => h (hr ▸ List.mem_cons_self)
      exact (retains_ask hne).trans (ih fun hmem => h (List.mem_cons_of_mem _ hmem))

/-! ## The law -/

/-- What obtaining a variable comes to, its name being in small letters. -/
structure Obtains (s : State) (name : String) (kind : Kind) (value : Value) (description : String)
    (t : State) (result : Except ConfigError VariableId) : Prop where
  /-- A text that is no proper name is refused as such, and nothing else is. -/
  invalid : (∃ n, result = .error (.invalidName n)) ↔ ¬ IsName name
  /-- Of the proper names, those are refused that are registered with another kind. -/
  mismatch : (∃ n old new, result = .error (.kindMismatch n old new)) ↔
    IsName name ∧ ∃ v x, s.Registers name v x ∧ x.kind ≠ kind
  /-- A refusal tells what was wrong, and is all that has happened. -/
  refused : ∀ e, result = .error e → t = { s with logging := t.logging } ∧
    (e = .invalidName name ∨ ∃ v x, s.Registers name v x ∧ e = .kindMismatch name x.kind kind)
  /-- A registered variable of the kind is given as it is. -/
  existing : ∀ v x, s.Registers name v x → x.kind = kind →
    result = .ok v ∧ t = { s with logging := t.logging }
  /-- A proper name that is free gets a new variable with the given value. -/
  created : IsName name → s.names.lookup name = none → ∃ v, result = .ok v ∧ s.vars[v]? = none ∧
    t.Registers name v { name, description, kind, value } ∧
    (∀ other, other ≠ name → t.names.lookup other = s.names.lookup other) ∧
    (∀ (w : VariableId) x, s.vars[w]? = some x → t.vars[w]? = some x) ∧ t.logging = s.logging

variable {value : Value} {description : String} {result : Except ConfigError VariableId}

theorem Registers.unique {w : VariableId} {y : Variable} (h : s.Registers name v x)
    (h' : s.Registers name w y) : w = v ∧ y = x := by
  obtain rfl := Option.some.inj (h.1.symm.trans h'.1)
  exact ⟨rfl, (Option.some.inj (h.2.symm.trans h'.2)).symm⟩

theorem Registers.obtains (h : s.Registers name v x) (hname : IsName name) (hkind : x.kind = kind)
    (ht : t = { s with logging := t.logging }) :
    s.Obtains name kind value description t (.ok v) := by
  constructor
  case invalid => simp [hname]
  case mismatch =>
    constructor
    · rintro ⟨n, old, new, he⟩
      cases he
    · rintro ⟨-, w, y, hy, hne⟩
      obtain ⟨rfl, rfl⟩ := h.unique hy
      exact absurd hkind hne
  case refused => exact fun e he => nomatch he
  case existing =>
    intro w y hy _
    obtain ⟨rfl, rfl⟩ := h.unique hy
    exact ⟨rfl, ht⟩
  case created => exact fun _ hfree => nomatch h.1.symm.trans hfree

theorem Registers.obtains_mismatch (h : s.Registers name v x) (hname : IsName name)
    (hkind : x.kind ≠ kind) (ht : t = { s with logging := t.logging }) :
    s.Obtains name kind value description t (.error (.kindMismatch name x.kind kind)) := by
  constructor
  case invalid => simp [hname]
  case mismatch => exact ⟨fun _ => ⟨hname, v, x, h, hkind⟩, fun _ => ⟨_, _, _, rfl⟩⟩
  case refused =>
    intro e he
    cases he
    exact ⟨ht, .inr ⟨v, x, h, rfl⟩⟩
  case existing =>
    intro w y hy hyes
    obtain ⟨rfl, rfl⟩ := h.unique hy
    exact absurd hyes hkind
  case created => exact fun _ hfree => nomatch h.1.symm.trans hfree

theorem obtains_register (hfree : s.names.lookup name = none) (hname : IsName name) :
    s.Obtains name kind value description (s.register { name, description, kind, value })
      (.ok s.vars.size) := by
  have hnone : ∀ w y, ¬ s.Registers name w y := fun w y hy => nomatch hfree.symm.trans hy.1
  constructor
  case invalid => simp [hname]
  case mismatch => simp [hnone]
  case refused => exact fun e he => nomatch he
  case existing => exact fun v x hx => absurd hx (hnone v x)
  case created =>
    exact fun _ _ => ⟨s.vars.size, rfl, Array.getElem?_size, registers_register_self s _,
      fun other hne => lookup_register_of_ne s hne, fun w x => getElem?_add_of_some, rfl⟩

theorem obtains_invalid (hfree : s.names.lookup name = none) (hname : ¬ IsName name)
    (ht : t = { s with logging := t.logging }) :
    s.Obtains name kind value description t (.error (.invalidName name)) := by
  constructor
  case invalid => simp [hname]
  case mismatch => simp [hname]
  case refused =>
    intro e he
    cases he
    exact ⟨ht, .inl rfl⟩
  case existing => exact fun v x hx => nomatch hfree.symm.trans hx.1
  case created => exact fun h => absurd h hname

/-- Obtaining a variable from a registry whose names are proper. -/
theorem obtains_obtain (hs : s.WellNamed) (name : String) (kind : Kind) (value : Value)
    (description : String) :
    s.Obtains (normalName name) kind value description (s.obtain name kind value description).1
      (s.obtain name kind value description).2 := by
  cases hlookup : s.names.lookup (normalName name) with
  | some v =>
      -- nothing is checked of a name that is found, but no other than proper names are found
      obtain ⟨hname, x, hx, -⟩ := hs _ v hlookup
      have hreg : s.Registers (normalName name) v x := ⟨hlookup, hx⟩
      obtain ⟨hstate, hresult⟩ := obtain_of_registers hreg kind value description
      rw [hresult]
      by_cases hkind : x.kind = kind
      · rw [if_pos hkind]
        exact hreg.obtains hname hkind hstate
      · rw [if_neg hkind]
        exact hreg.obtains_mismatch hname hkind hstate
  | none =>
      by_cases hname : IsName (normalName name)
      · rw [obtain_of_isName hlookup hname]
        exact obtains_register hlookup hname
      · rw [obtain_of_not_isName hlookup hname]
        exact obtains_invalid hlookup hname rfl

/-- What holds of a registry at any time. -/
structure Orderly (s : State) : Prop where
  names : s.WellNamed
  /-- What is registered stays so until the registry is cleared. -/
  kept : ∀ later, .operate .clear ∉ later → s.Retains (s.askAll later)
  obtain : ∀ name kind value description,
    s.Obtains (normalName name) kind value description (s.obtain name kind value description).1
      (s.obtain name kind value description).2
  /-- A variable is found if it is registered with the kind; only a record may come of it. -/
  lookup : ∀ name kind,
    (s.lookup name kind).1 = { s with logging := (s.lookup name kind).1.logging } ∧
    ∀ v, (s.lookup name kind).2 = some v ↔
      ∃ x, s.Registers (normalName name) v x ∧ x.kind = kind
  find : ∀ name v, s.find? name = some v ↔ ∃ x, s.Registers (normalName name) v x
  /-- The case of a name makes no difference. -/
  anyCase : ∀ name other, normalName name = normalName other →
    s.find? name = s.find? other ∧ (∀ kind, s.lookup name kind = s.lookup other kind) ∧
    ∀ kind value description,
      s.obtain name kind value description = s.obtain other kind value description

/-- A registry is orderly whatever has been asked of it. -/
theorem orderly_askAll (l : Logging.State) (requests : List Request) :
    ((fresh l).askAll requests).Orderly := by
  have hs : ((fresh l).askAll requests).WellNamed :=
    wellNamed_askAll (fun name v hlookup => by cases hlookup) requests
  constructor
  case names => exact hs
  case kept => exact fun later h => retains_askAll later h
  case obtain =>
    exact fun name kind value description => obtains_obtain hs name kind value description
  case lookup =>
    intro name kind
    obtain ⟨l, hl⟩ := lookup_fst ((fresh l).askAll requests) name kind
    exact ⟨by rw [hl], fun v => lookup_snd hs name kind⟩
  case find => exact fun name v => find?_eq_some hs name
  case anyCase =>
    intro name other h
    have hfind : ∀ s : State, s.find? name = s.find? other := fun s => by rw [find?, find?, h]
    refine ⟨hfind _, fun kind => ?_, fun kind value description => ?_⟩
    · rw [lookup, lookup, hfind, h]
    · simp only [State.obtain, h]

/-- A number that is registered and asked for as a text, and a text that is no name. -/
def ports : List Request := [
  .operate (.obtain "System.Port" (.whole .u16) (.whole 80) "the port"),
  .lookup "SYSTEM.PORT" .string, .operate (.obtain "system port" .string (.string "") "")]

theorem orderly_askAll_ports :
    let s := (fresh { files := .start [] }).askAll ports
    s.Orderly ∧ (∃ v x, s.Registers "system.port" v x ∧ x.value = .whole 80) ∧
    (s.obtain "SYSTEM.Port" .string (.string "") "").2.toOption = none ∧ ¬ IsName "system port" := by
  have hlaw := orderly_askAll { files := .start [] } ports
  refine ⟨hlaw, ⟨0, _, ⟨rfl, rfl⟩, rfl⟩, rfl, ?_⟩
  rw [← isValidName_iff]
  decide

end State

end ConfigLog.Config
