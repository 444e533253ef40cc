import Dtest.CommandLine.Model

/-!
# The command lines that are accepted

`findTests_ok_iff`: `findTests` gets to its end exactly if no path is too long, `stat` succeeds for
all of them and every file that it loads can be loaded, and then it has loaded, in the order of the
walk, the files whose names end in `.dtest.so`.  `parseArguments_ok_iff`: the arguments are accepted
exactly if they are a sequence of options with their values and of places, each of which can be
carried out, and of several options that set the same thing the last one counts.
-/

namespace Dtest

namespace CommandLine

variable {w : World}

/-! ## The names of test files -/

theorem isTestFile_iff {path : List UInt8} :
    isTestFile path = true ↔
      ∃ stem suffix, path = stem ++ suffix ∧ suffix.map toLower = ascii ".dtest.so" := by
  have hlower : (ascii ".dtest.so").map toLower = ascii ".dtest.so" := by decide
  simp only [isTestFile, sameText, hlower, Bool.and_eq_true, decide_eq_true_eq, beq_iff_eq]
  constructor
  · rintro ⟨-, hsuffix⟩
    exact ⟨path.take (path.length - 9), _, (List.take_append_drop _ _).symm, hsuffix⟩
  · rintro ⟨stem, suffix, rfl, hsuffix⟩
    have hlen : suffix.length = 9 := by
      rw [← List.length_map (f := toLower), hsuffix]
      decide
    rw [List.length_append, hlen, Nat.add_sub_cancel, List.drop_left]
    exact ⟨Nat.le_add_left _ _, hsuffix⟩

theorem slash_notMem {suffix : List UInt8} (h : suffix.map toLower = ascii ".dtest.so") :
    slash ∉ suffix := by
  intro hmem
  have hlower : toLower slash ∈ ascii ".dtest.so" := h ▸ List.mem_map_of_mem hmem
  revert hlower
  decide

/-- Whether a file is loaded depends on its name only. -/
theorem isTestFile_childPath (path name : List UInt8) :
    isTestFile (childPath path name) = isTestFile name := by
  rw [Bool.eq_iff_iff, isTestFile_iff, isTestFile_iff]
  unfold childPath
  constructor
  · rintro ⟨stem, suffix, heq, hsuffix⟩
    rcases List.append_eq_append_iff.1 heq with ⟨a, -, hname⟩ | ⟨a, -, hname⟩
    · cases a with
      | nil =>
        rw [List.nil_append] at hname
        exact absurd (hname ▸ List.mem_cons_self ..) (slash_notMem hsuffix)
      | cons b a =>
        rw [List.cons_append] at hname
        exact ⟨a, suffix, (List.cons.inj hname).2, hsuffix⟩
    · exact absurd (hname ▸ List.mem_append_right _ (List.mem_cons_self ..)) (slash_notMem hsuffix)
  · rintro ⟨stem, suffix, rfl, hsuffix⟩
    exact ⟨path ++ slash :: stem, suffix, by simp, hsuffix⟩

/-! ## The walk -/

mutual

/-- The files that `findTests` looks at. -/
def FileNode.files (path : List UInt8) : FileNode → List (List UInt8)
  | .file => [path]
  | .dir entries => entries.files path
  | .missing => []

def Entries.files (path : List UInt8) : Entries → List (List UInt8)
  | .nil => []
  | .cons name node rest =>
    (if entered name then node.files (childPath path name) else []) ++ rest.files path

end

mutual

/-- Every path that `findTests` makes fits its buffer, and `stat` succeeds for it. -/
def FileNode.Fits (path : List UInt8) : FileNode → Prop
  | .file => True
  | .dir entries => entries.Fits path
  | .missing => False

def Entries.Fits (path : List UInt8) : Entries → Prop
  | .nil => True
  | .cons name node rest =>
    (entered name = true →
      (childPath path name).length < pathMax ∧ node.Fits (childPath path name)) ∧ rest.Fits path

end

/-- What leads from a directory to a file below it: the names on the way, all of them entered. -/
inductive FileNode.Leads : FileNode → List (List UInt8) → Prop
  | file : Leads .file []
  | first {name : List UInt8} {node : FileNode} {rest : Entries} {names : List (List UInt8)}
      (hname : entered name = true) (h : Leads node names) :
      Leads (.dir (.cons name node rest)) (name :: names)
  | later {name : List UInt8} {node : FileNode} {rest : Entries} {names : List (List UInt8)}
      (h : Leads (.dir rest) names) : Leads (.dir (.cons name node rest)) names

mutual

theorem FileNode.mem_files_iff {p : List UInt8} : ∀ (path : List UInt8) (node : FileNode),
    p ∈ node.files path ↔ ∃ names, node.Leads names ∧ p = names.foldl childPath path
  | path, .file => by
    rw [FileNode.files, List.mem_singleton]
    constructor
    · intro h
      exact ⟨[], .file, h⟩
    · rintro ⟨names, hleads, rfl⟩
      cases hleads
      rfl
  | path, .dir entries => Entries.mem_files_iff path entries
  | path, .missing => by
    rw [FileNode.files]
    constructor
    · intro h
      cases h
    · rintro ⟨names, hleads, -⟩
      cases hleads

theorem Entries.mem_files_iff {p : List UInt8} : ∀ (path : List UInt8) (entries : Entries),
    p ∈ entries.files path ↔
      ∃ names, (FileNode.dir entries).Leads names ∧ p = names.foldl childPath path
  | path, .nil => by
    rw [Entries.files]
    constructor
    · intro h
      cases h
    · rintro ⟨names, hleads, -⟩
      cases hleads
  | path, .cons name node rest => by
    have hnode := FileNode.mem_files_iff (p := p) (childPath path name) node
    have hrest := Entries.mem_files_iff (p := p) path rest
    rw [Entries.files, List.mem_append, hrest]
    constructor
    · rintro (h | ⟨names, hleads, rfl⟩)
      · split_ifs at h with hname
        · obtain ⟨names, hleads, rfl⟩ := hnode.1 h
          exact ⟨name :: names, .first hname hleads, rfl⟩
        · cases h
      · exact ⟨names, .later hleads, rfl⟩
    · rintro ⟨names, hleads, rfl⟩
      cases hleads with
      | first hname hleads =>
        rw [if_pos hname]
        exact Or.inl (hnode.2 ⟨_, hleads, rfl⟩)
      | later hleads => exact Or.inr ⟨names, hleads, rfl⟩

end

/-! ## What `findTests` loads -/

theorem bind_eq_ok {ε β γ : Type} {x : Except ε β} {f : β → Except ε γ} {c : γ} :
    x >>= f = .ok c ↔ ∃ b, x = .ok b ∧ f b = .ok c := by
  cases x with
  | error e =>
    constructor
    · intro h
      cases h
    · rintro ⟨b, h, -⟩
      cases h
  | ok b =>
    constructor
    · intro h
      exact ⟨b, rfl, h⟩
    · rintro ⟨_, ⟨⟩, h⟩
      exact h

theorem loadTests_ok_iff {path : List UInt8} {tests r : List (List UInt8)} :
    loadTests w path tests = .ok r ↔ w.loads path = true ∧ r = tests ++ [path] := by
  unfold loadTests
  by_cases h : w.loads path = true
  · simp [h, eq_comm]
  · simp [h]

mutual

/-- `findTests` gets to its end exactly if every path fits and leads somewhere and every test file
loads, and then it has loaded the test files in the order of the walk. -/
theorem findTests_ok_iff : ∀ (path : List UInt8) (node : FileNode) (tests r : List (List UInt8)),
    findTests w path node tests = .ok r ↔
      node.Fits path ∧ (∀ p ∈ (node.files path).filter isTestFile, w.loads p = true) ∧
        r = tests ++ (node.files path).filter isTestFile
  | path, .file, tests, r => by
    rw [findTests, FileNode.files, FileNode.Fits]
    cases htest : isTestFile path with
    | true =>
      rw [if_pos rfl, loadTests_ok_iff, List.filter_cons_of_pos htest, List.filter_nil, true_and]
      simp only [List.mem_singleton, forall_eq]
    | false =>
      rw [if_neg Bool.false_ne_true, List.filter_cons_of_neg (htest ▸ Bool.false_ne_true),
        List.filter_nil, true_and, List.append_nil]
      exact ⟨fun h => ⟨fun p hp => absurd hp List.not_mem_nil, (Except.ok.inj h).symm⟩,
        fun h => congrArg Except.ok h.2.symm⟩
  | path, .dir entries, tests, r => by
    rw [findTests, FileNode.files, FileNode.Fits]
    exact findEntries_ok_iff path entries tests r
  | path, .missing, tests, r => by
    rw [findTests, FileNode.Fits, false_and, iff_false]
    intro h
    cases h

theorem findEntries_ok_iff :
    ∀ (path : List UInt8) (entries : Entries) (tests r : List (List UInt8)),
    findEntries w path entries tests = .ok r ↔
      entries.Fits path ∧ (∀ p ∈ (entries.files path).filter isTestFile, w.loads p = true) ∧
        r = tests ++ (entries.files path).filter isTestFile
  | path, .nil, tests, r => by
    rw [findEntries, Entries.files, Entries.Fits, List.filter_nil, true_and, List.append_nil]
    exact ⟨fun h => ⟨fun p hp => absurd hp List.not_mem_nil, (Except.ok.inj h).symm⟩,
      fun h => congrArg Except.ok h.2.symm⟩
  | path, .cons name node rest, tests, r => by
    have hrest := findEntries_ok_iff path rest
    rw [findEntries, Entries.files, Entries.Fits]
    cases hname : entered name with
    | false =>
      rw [if_neg Bool.false_ne_true, hrest]
      simp
    | true =>
      rw [if_pos rfl, if_pos rfl, List.filter_append]
      by_cases hlong : pathMax < (childPath path name).length + 1
      · rw [if_pos hlong]
        constructor
        · intro h
          cases h
        · rintro ⟨⟨hfits, -⟩, -⟩
          have := (hfits rfl).1
          omega
      · rw [if_neg hlong]
        have hnode := findTests_ok_iff (childPath path name) node tests
        have hfit : (childPath path name).length < pathMax := by omega
        rw [bind_eq_ok]
        constructor
        · rintro ⟨found, hfound, hlater⟩
          obtain ⟨hnodeFits, hnodeLoads, rfl⟩ := (hnode found).1 hfound
          obtain ⟨hfits, hloads, rfl⟩ := (hrest _ _).1 hlater
          refine ⟨⟨fun _ => ⟨hfit, hnodeFits⟩, hfits⟩, fun p hp => ?_, List.append_assoc ..⟩
          exact (List.mem_append.1 hp).elim (hnodeLoads p) (hloads p)
        · rintro ⟨⟨hnodeFits, hfits⟩, hloads, rfl⟩
          refine ⟨_, (hnode _).2 ⟨(hnodeFits rfl).2, fun p hp => ?_, rfl⟩,
            (hrest _ _).2 ⟨hfits, fun p hp => ?_, (List.append_assoc ..).symm⟩⟩
          · exact hloads p (List.mem_append_left _ hp)
          · exact hloads p (List.mem_append_right _ hp)

end

/-- Behind any directories a file keeps its own name. -/
theorem isTestFile_foldl (path : List UInt8) (names : List (List UInt8)) :
    isTestFile (names.foldl childPath path) = isTestFile (names.getLastD path) := by
  induction names using List.reverseRecOn with
  | nil => rfl
  | append_singleton names name _ =>
    rw [List.foldl_append, List.foldl_cons, List.foldl_nil, isTestFile_childPath,
      List.getLastD_concat]

theorem mem_testFiles_iff {path : List UInt8} {node : FileNode} {p : List UInt8} :
    p ∈ (node.files path).filter isTestFile ↔ ∃ names, node.Leads names ∧
      isTestFile (names.getLastD path) = true ∧ p = names.foldl childPath path := by
  rw [List.mem_filter, FileNode.mem_files_iff]
  constructor
  · rintro ⟨⟨names, hleads, rfl⟩, htest⟩
    exact ⟨names, hleads, isTestFile_foldl path names ▸ htest, rfl⟩
  · rintro ⟨names, hleads, htest, rfl⟩
    exact ⟨⟨names, hleads, rfl⟩, (isTestFile_foldl path names).trans htest⟩

/-- `findTests` gets to its end exactly if every path it makes fits its buffer, `stat` succeeds for
it and every file that it loads can be loaded; then the files loaded are those below the place whose
own names end in `.dtest.so` and that no directory named `dtest` hides. -/
theorem findTests_exact (w : World) (path : List UInt8) (node : FileNode) :
    ((∃ r, findTests w path node [] = .ok r) ↔ node.Fits path ∧ ∀ names, node.Leads names →
      isTestFile (names.getLastD path) = true → w.loads (names.foldl childPath path) = true) ∧
    ∀ r, findTests w path node [] = .ok r → ∀ p, p ∈ r ↔ ∃ names, node.Leads names ∧
      isTestFile (names.getLastD path) = true ∧ p = names.foldl childPath path := by
  constructor
  · constructor
    · rintro ⟨r, hr⟩
      obtain ⟨hfits, hloads, -⟩ := (findTests_ok_iff path node [] r).1 hr
      refine ⟨hfits, fun names hleads htest => ?_⟩
      exact hloads _ (mem_testFiles_iff.2 ⟨names, hleads, htest, rfl⟩)
    · rintro ⟨hfits, hloads⟩
      refine ⟨_, (findTests_ok_iff path node [] _).2 ⟨hfits, fun p hp => ?_, rfl⟩⟩
      obtain ⟨names, hleads, htest, rfl⟩ := mem_testFiles_iff.1 hp
      exact hloads names hleads htest
  · intro r hr p
    obtain ⟨-, -, rfl⟩ := (findTests_ok_iff path node [] r).1 hr
    rw [List.nil_append]
    exact mem_testFiles_iff

/-! ## The sequence of options and places -/

/-- An option with its value, or a place. -/
inductive Item
  | value (o : ValueOption) (text : List UInt8)
  | place (path : List UInt8) (node : FileNode)

/-- The arguments are a sequence of options with their values and of places that exist. -/
inductive Lexes (w : World) : List (List UInt8) → List Item → Prop
  | nil : Lexes w [] []
  | value {arg text : List UInt8} {o : ValueOption} {args : List (List UInt8)} {items : List Item}
      (hopt : isOption arg = true) (ho : CliOption.ofText arg = some (.value o))
      (h : Lexes w args items) : Lexes w (arg :: text :: args) (.value o text :: items)
  | place {arg : List UInt8} {node : FileNode} {args : List (List UInt8)} {items : List Item}
      (hopt : isOption arg = false) (hnode : w.file arg = some node) (h : Lexes w args items) :
      Lexes w (arg :: args) (.place arg node :: items)

section

variable {arg : List UInt8} {args : List (List UInt8)} {items : List Item}

theorem lexes_nil_iff : Lexes w [] items ↔ items = [] := by
  constructor
  · intro h
    cases h
    rfl
  · rintro rfl
    exact .nil

theorem lexes_option_iff (hopt : isOption arg = true) :
    Lexes w (arg :: args) items ↔ ∃ o text rest more, CliOption.ofText arg = some (.value o) ∧
      args = text :: rest ∧ items = .value o text :: more ∧ Lexes w rest more := by
  constructor
  · intro h
    cases h with
    | value _ ho h => exact ⟨_, _, _, _, ho, rfl, rfl, h⟩
    | place hopt' =>
      rw [hopt] at hopt'
      cases hopt'
  · rintro ⟨o, text, rest, more, ho, rfl, rfl, h⟩
    exact .value hopt ho h

theorem lexes_place_iff (hopt : isOption arg = false) :
    Lexes w (arg :: args) items ↔ ∃ node more, w.file arg = some node ∧
      items = .place arg node :: more ∧ Lexes w args more := by
  constructor
  · intro h
    cases h with
    | value hopt' =>
      rw [hopt] at hopt'
      cases hopt'
    | place _ hnode h => exact ⟨_, _, hnode, rfl, h⟩
  · rintro ⟨node, more, hnode, rfl, h⟩
    exact .place hopt hnode h

end

/-- The address that the value of `--driver` denotes. -/
def addressOf (w : World) (text : List UInt8) : Option (ℕ × ℕ) :=
  match strToIpv4 text with
  | some (.resolve host port) => w.resolve host port
  | _ => none

namespace Item

def isPlace : Item → Bool
  | .place .. => true
  | .value .. => false

/-- The value of an option `o`. -/
def value? (o : ValueOption) : Item → Option (List UInt8)
  | .value o' text => if o' = o then some text else none
  | .place .. => none

/-- The port that an item sets. -/
def port? (w : World) : Item → Option ℕ
  | .value .port text => some (atoiUnsigned 16 text)
  | .value .driver text => (addressOf w text).map Prod.snd
  | _ => none

/-- The test files of a place. -/
def testFiles : Item → List (List UInt8)
  | .place path node => (node.files path).filter isTestFile
  | .value .. => []

/-- An item can be carried out. -/
def Works (w : World) : Item → Prop
  | .value .driver text => (addressOf w text).isSome = true
  | .value .. => True
  | .place path node => node.Fits path ∧ ∀ p ∈ (node.files path).filter isTestFile, w.loads p = true

def run (w : World) (s : Setup) : Item → Except Halt Setup
  | .value o text => o.run w s text
  | .place path node => s.findTests w path node

end Item

/-- The values of an option in their order. -/
def values (o : ValueOption) (items : List Item) : List (List UInt8) :=
  items.filterMap (Item.value? o)

/-- What a sequence of options and places asks for. -/
def describe (w : World) (items : List Item) : Setup where
  driver := (values .workers items).foldl (fun c text => c.addWorkers (atoiUnsigned 32 text)) {}
  port := (items.filterMap (Item.port? w)).getLast?.getD 0
  address := (values .driver items).getLast?.bind (addressOf w)
  superAddress := ((values .driver items).getLast?.bind (addressOf w)).map fun addr =>
    (addr.1, if addr.2 = 0 then 0 else (addr.2 + 1) % 2 ^ 16)
  runWorker := !(values .driver items).isEmpty
  workerId := ((values .workerId items).getLast?.map (atoiUnsigned 32)).getD 0
  modules := (values .module items).toFinset
  dynamicTests := items.flatMap Item.testFiles

theorem values_append (o : ValueOption) (items : List Item) (i : Item) :
    values o (items ++ [i]) = values o items ++ (i.value? o).toList := by
  unfold values
  rw [List.filterMap_append]
  cases hi : i.value? o <;> simp [hi]

theorem setAddress_ok_iff {s s' : Setup} {text : List UInt8} : s.setAddress w text = .ok s' ↔
    ∃ addr, addressOf w text = some addr ∧ s' = { s with
      port := addr.2
      address := some addr
      superAddress := some (addr.1, if addr.2 = 0 then 0 else (addr.2 + 1) % 2 ^ 16) } := by
  unfold Setup.setAddress addressOf
  cases strToIpv4 text with
  | none => simp
  | some parsed =>
    cases parsed with
    | invalidArgument what => simp
    | resolve host port =>
      dsimp only
      cases w.resolve host port with
      | none => simp
      | some addr => simp [eq_comm]

/-- An item that is carried out adds what it asks for. -/
theorem run_describe_iff (items : List Item) (i : Item) (s : Setup) :
    i.run w (describe w items) = .ok s ↔ i.Works w ∧ s = describe w (items ++ [i]) := by
  cases i with
  | place path node =>
    show (describe w items).findTests w path node = .ok s ↔ _
    unfold Setup.findTests
    rw [bind_eq_ok]
    have hdescribe : describe w (items ++ [.place path node]) = { describe w items with
        dynamicTests :=
          (describe w items).dynamicTests ++ (node.files path).filter isTestFile } := by
      simp [describe, values_append, Item.value?, Item.port?, Item.testFiles]
    rw [hdescribe]
    constructor
    · rintro ⟨r, hfound, hs⟩
      obtain ⟨hfits, hloads, rfl⟩ := (findTests_ok_iff path node _ r).1 hfound
      exact ⟨⟨hfits, hloads⟩, (Except.ok.inj hs).symm⟩
    · rintro ⟨⟨hfits, hloads⟩, rfl⟩
      exact ⟨_, (findTests_ok_iff path node _ _).2 ⟨hfits, hloads, rfl⟩, rfl⟩
  | value o text =>
    cases o with
    | driver =>
      show Setup.setAddress w { describe w items with runWorker := true } text = .ok s ↔ _
      rw [setAddress_ok_iff]
      show _ ↔ (addressOf w text).isSome = true ∧ _
      cases haddr : addressOf w text with
      | none => simp
      | some addr =>
        have hgiven : (values .driver items ++ [text]).isEmpty = false := by
          rw [List.isEmpty_eq_false_iff]
          exact List.append_ne_nil_of_right_ne_nil _ (List.cons_ne_nil _ _)
        simp [describe, values_append, Item.value?, Item.port?, Item.testFiles, haddr, hgiven]
    | port =>
      show Except.ok _ = _ ↔ True ∧ _
      simp [describe, values_append, Item.value?, Item.port?, Item.testFiles, eq_comm]
    | workers =>
      show Except.ok _ = _ ↔ True ∧ _
      simp [describe, values_append, Item.value?, Item.port?, Item.testFiles, eq_comm]
    | workerId =>
      show Except.ok _ = _ ↔ True ∧ _
      simp [describe, values_append, Item.value?, Item.port?, Item.testFiles, eq_comm]
    | module =>
      show Except.ok _ = _ ↔ True ∧ _
      simp [describe, values_append, Item.value?, Item.port?, Item.testFiles, eq_comm]

/-- Every item of a sequence can be carried out. -/
def AllWork (w : World) (items : List Item) : Prop := ∀ i ∈ items, i.Works w

/-- The arguments after an item that is carried out. -/
theorem run_then_iff {args : List (List UInt8)} {items : List Item} {i : Item} {got got' : Bool}
    {s : Setup}
    (hrest : ∀ items', parseLoop w args (describe w items') got' = .ok (s, got) ↔
      ∃ more, Lexes w args more ∧ AllWork w more ∧ s = describe w (items' ++ more) ∧
        got = (got' || more.any Item.isPlace)) :
    (i.run w (describe w items) >>= fun s' => parseLoop w args s' got') = .ok (s, got) ↔
      ∃ more, Lexes w args more ∧ AllWork w (i :: more) ∧ s = describe w (items ++ i :: more) ∧
        got = (got' || more.any Item.isPlace) := by
  rw [bind_eq_ok]
  constructor
  · rintro ⟨s', hrun, hlater⟩
    obtain ⟨hworks, rfl⟩ := (run_describe_iff items i s').1 hrun
    obtain ⟨more, hlexes, hall, hs, hgot⟩ := (hrest _).1 hlater
    rw [← List.append_cons] at hs
    exact ⟨more, hlexes, List.forall_mem_cons.2 ⟨hworks, hall⟩, hs, hgot⟩
  · rintro ⟨more, hlexes, hall, hs, hgot⟩
    obtain ⟨hworks, hall⟩ := List.forall_mem_cons.1 hall
    rw [List.append_cons] at hs
    exact ⟨_, (run_describe_iff items i _).2 ⟨hworks, rfl⟩,
      (hrest _).2 ⟨more, hlexes, hall, hs, hgot⟩⟩

/-- The loop of `parseArguments` after some items. -/
theorem parseLoop_ok_iff (args : List (List UInt8)) (items : List Item) (gotTestLocation : Bool)
    (s : Setup) (got : Bool) :
    parseLoop w args (describe w items) gotTestLocation = .ok (s, got) ↔
      ∃ more, Lexes w args more ∧ AllWork w more ∧ s = describe w (items ++ more) ∧
        got = (gotTestLocation || more.any Item.isPlace) := by
  induction hn : args.length using Nat.strongRecOn generalizing args items gotTestLocation with
  | _ n ih =>
    subst hn
    cases args with
    | nil =>
      rw [parseLoop]
      constructor
      · intro h
        obtain ⟨rfl, rfl⟩ := Prod.mk.inj (Except.ok.inj h)
        exact ⟨[], .nil, fun i hi => absurd hi List.not_mem_nil, by rw [List.append_nil], by simp⟩
      · rintro ⟨more, hlexes, -, rfl, rfl⟩
        obtain rfl := lexes_nil_iff.1 hlexes
        simp
    | cons arg args =>
      unfold parseLoop
      cases hopt : isOption arg with
      | false =>
        rw [if_neg Bool.false_ne_true]
        simp only [lexes_place_iff hopt]
        cases hnode : w.file arg with
        | none =>
          refine iff_of_false (fun h => by cases h) ?_
          rintro ⟨more, ⟨node, more', hnode', -⟩, -⟩
          cases hnode'
        | some node =>
          refine (run_then_iff (i := .place arg node)
            fun items' => ih _ (Nat.lt_succ_self _) args items' true rfl).trans ?_
          constructor
          · rintro ⟨more, hlexes, hall, hs, hgot⟩
            exact ⟨_, ⟨node, more, rfl, rfl, hlexes⟩, hall, hs, by rw [hgot]; simp [Item.isPlace]⟩
          · rintro ⟨_, ⟨node', more, hnode', rfl, hlexes⟩, hall, hs, hgot⟩
            obtain rfl := Option.some.inj hnode'
            exact ⟨more, hlexes, hall, hs, by rw [hgot]; simp [Item.isPlace]⟩
      | true =>
        rw [if_pos rfl]
        simp only [lexes_option_iff hopt]
        cases ho : CliOption.ofText arg with
        | none =>
          refine iff_of_false (fun h => by cases h) ?_
          rintro ⟨more, ⟨o, text, rest, more', ho', -⟩, -⟩
          cases ho'
        | some option =>
          cases option with
          | help =>
            refine iff_of_false (fun h => by cases h) ?_
            rintro ⟨more, ⟨o, text, rest, more', ho', -⟩, -⟩
            cases ho'
          | value o =>
            cases args with
            | nil =>
              refine iff_of_false (fun h => by cases h) ?_
              rintro ⟨more, ⟨o', text, rest, more', -, hargs, -⟩, -⟩
              cases hargs
            | cons text args =>
              refine (run_then_iff (i := .value o text)
                fun items' => ih args.length
                  (Nat.lt_succ_of_lt (Nat.lt_succ_self _)) args items' gotTestLocation rfl).trans ?_
              constructor
              · rintro ⟨more, hlexes, hall, hs, hgot⟩
                exact ⟨_, ⟨o, text, args, more, rfl, rfl, rfl, hlexes⟩, hall, hs, hgot⟩
              · rintro ⟨_, ⟨o', text', args', more, ho', hargs, rfl, hlexes⟩, hall, hs, hgot⟩
                cases ho'
                cases hargs
                exact ⟨more, hlexes, hall, hs, hgot⟩

/-- The items that are carried out: the working directory is searched if no place is given. -/
def withDefault (cwd : List UInt8) (cwdNode : FileNode) (items : List Item) : List Item :=
  if items.any Item.isPlace then items else items ++ [.place cwd cwdNode]

/-- The arguments are accepted exactly if they are a sequence of options with their values and of
places, and all of them can be carried out. -/
theorem parseArguments_ok_iff (w : World) (args : List (List UInt8)) (cwd : List UInt8)
    (cwdNode : FileNode) (s : Setup) :
    parseArguments w args cwd cwdNode = .ok s ↔
      ∃ items, Lexes w args items ∧ AllWork w (withDefault cwd cwdNode items) ∧
        s = describe w (withDefault cwd cwdNode items) := by
  unfold parseArguments
  rw [bind_eq_ok]
  have hloop := parseLoop_ok_iff (w := w) args [] false
  rw [show describe w [] = {} from rfl] at hloop
  constructor
  · rintro ⟨⟨s', got⟩, hargs, hend⟩
    obtain ⟨items, hlexes, hall, rfl, rfl⟩ := (hloop s' got).1 hargs
    rw [Bool.false_or, List.nil_append] at hend
    refine ⟨items, hlexes, ?_⟩
    unfold withDefault
    cases hplace : items.any Item.isPlace with
    | true =>
      rw [hplace] at hend
      rw [if_pos rfl]
      exact ⟨hall, (Except.ok.inj hend).symm⟩
    | false =>
      rw [hplace] at hend
      rw [if_neg Bool.false_ne_true]
      obtain ⟨hworks, hs⟩ := (run_describe_iff items (.place cwd cwdNode) s).1 hend
      exact ⟨List.forall_mem_append.2 ⟨hall, List.forall_mem_singleton.2 hworks⟩, hs⟩
  · rintro ⟨items, hlexes, hall, rfl⟩
    have hitems : AllWork w items := fun i hi => hall i (by
      unfold withDefault
      split_ifs
      · exact hi
      · exact List.mem_append_left _ hi)
    refine ⟨_, (hloop _ _).2 ⟨items, hlexes, hitems, rfl, rfl⟩, ?_⟩
    rw [Bool.false_or, List.nil_append]
    unfold withDefault at hall ⊢
    cases hplace : items.any Item.isPlace with
    | true => rfl
    | false =>
      rw [hplace, if_neg Bool.false_ne_true] at hall
      rw [if_neg Bool.false_ne_true]
      exact (run_describe_iff items (.place cwd cwdNode) _).2
        ⟨hall _ (List.mem_append_right _ (List.mem_singleton_self _)), rfl⟩

/-- A directory with two tests, one of them in a directory that is not entered. -/
def oneHidden : World where
  file path := if path = ascii "lib" then some (.dir (.cons (ascii "a.DTEST.so") .file
    (.cons (ascii "dtest") (.dir (.cons (ascii "b.dtest.so") .file .nil)) .nil))) else none
  loads _ := true
  dlerror := []
  resolve _ _ := none
  gaiError := []

example : (parseArguments oneHidden (["--Module", "m", "lib", "--port", "65537"].map ascii) []
    .file).toOption.map (fun s => (s.modules, s.port, s.dynamicTests)) =
      some ({ascii "m"}, 1, [ascii "lib/a.DTEST.so"]) := by decide

/-- An option at the end of the command line has no value. -/
example : parseArguments oneHidden [ascii "lib", ascii "--port"] [] .file = .error .undefined := rfl

end CommandLine

end Dtest
