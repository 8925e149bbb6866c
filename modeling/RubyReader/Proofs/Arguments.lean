/-
# `Arguments` — command lines as items

A command line that is carried out is a sequence of items, in any order:

    --ast    --no-color    -e CODE    FILE

`-e` takes the argument behind it, whatever that looks like; FILE does not begin with `-`.  At
most one item gives an input.  What items ask for (`asked`) depends on which of them there are,
not on where they stand or how often (`asked_congr`).

Any other command line has a first place that offends, behind items that do not (`Offends`):

    items  -h | --help ...          help is asked for
    items  -x ...                   an option that is unknown
    items  -e                       nothing behind `-e`
    items  -e CODE | FILE ...       a second input

There is exactly one way to split a command line into items and what stops them
(`exists_stops`, `stops_unique`).  Reading it gives what all its items ask for, or the error of
the place that offends (`Options.ofArgs_items`).
-/
import Mathlib.Data.List.Perm.Basic
import RubyReader.Command.Options

namespace RubyReader.Options

/-! ## Items

A flag may stand anywhere.  Of the inputs there is at most one, so a front of the items has
no more of them than the whole. -/

/-- What a command line consists of. -/
inductive Item where
  | tree
  | uncoloured
  | code (text : String)
  | file (path : String) (named : path.startsWith "-" = false)
deriving DecidableEq

namespace Item

def args : Item → List String
  | tree => ["--ast"]
  | uncoloured => ["--no-color"]
  | code text => ["-e", text]
  | file path _ => [path]

/-- The input that an item gives; a flag gives none. -/
def input? : Item → Option Input
  | tree | uncoloured => none
  | code text => some (.code text)
  | file path _ => some (.file path)

/-- Arguments with a meaning of their own. -/
def known : List String := ["--ast", "--no-color", "-e", "-h", "--help"]

theorem not_known {path : String} (named : path.startsWith "-" = false) : path ∉ known := by
  have dashed : known.all (·.startsWith "-") = true := by decide +kernel
  intro mem
  exact Bool.false_ne_true (named.symm.trans (List.all_eq_true.mp dashed path mem))

theorem ne_of_named {path : String} (named : path.startsWith "-" = false) :
    path ≠ "--ast" ∧ path ≠ "--no-color" ∧ path ≠ "-e" ∧ path ≠ "-h" ∧ path ≠ "--help" := by
  simpa [known] using not_known named

theorem input?_ne_prompt (item : Item) : item.input? ≠ some .prompt := by
  cases item <;> simp [input?]

theorem args_ne_nil (item : Item) : item.args ≠ [] := by
  cases item <;> simp [args]

/-- In front of any rest, arguments are those of one item. -/
theorem args_append_inj {item other : Item} {rest rest' : List String}
    (same : item.args ++ rest = other.args ++ rest') : item = other ∧ rest = rest' := by
  cases item <;> cases other <;> grind [args, ne_of_named]

end Item

def written (items : List Item) : List String := items.flatMap Item.args

/-- The inputs that items give, from the left. -/
def inputs (items : List Item) : List Input := items.filterMap Item.input?

/-- At most one input is given. -/
def SingleInput (items : List Item) : Prop := (inputs items).length ≤ 1

instance (items : List Item) : Decidable (SingleInput items) :=
  inferInstanceAs (Decidable (_ ≤ _))

def asked (items : List Item) : Options where
  input := (inputs items).head?.getD .prompt
  format := if .tree ∈ items then .tree else .sexp
  colours := .uncoloured ∉ items

/-- Behind items stands something that begins no item, or a second input. -/
inductive Offends (front : List Item) : List String → UsageError → Prop
  | help {arg : String} {rest : List String} :
      arg = "-h" ∨ arg = "--help" → Offends front (arg :: rest) .help
  | unknownOption {arg : String} {rest : List String} :
      arg.startsWith "-" = true → arg ∉ Item.known →
      Offends front (arg :: rest) (.unknownOption arg)
  | missingCode : Offends front ["-e"] .missingCode
  | extraCode {text : String} {rest : List String} :
      inputs front ≠ [] → Offends front ("-e" :: text :: rest) (.extraInput text)
  | extraFile {path : String} {rest : List String} :
      path.startsWith "-" = false → inputs front ≠ [] →
      Offends front (path :: rest) (.extraInput path)

/-- Behind items the command line ends, or has its first place that offends. -/
def Stops (front : List Item) (back : List String) : Prop :=
  SingleInput front ∧ (back = [] ∨ ∃ error, Offends front back error)

variable {front items others : List Item} {item : Item} {args rest back : List String}
  {arg path : String} {input : Input} {error : UsageError}

theorem written_cons (item : Item) (items : List Item) (back : List String) :
    written (item :: items) ++ back = item.args ++ (written items ++ back) :=
  List.append_assoc _ _ _

theorem inputs_append (items others : List Item) :
    inputs (items ++ others) = inputs items ++ inputs others := List.filterMap_append

theorem inputs_concat (front : List Item) (item : Item) :
    inputs (front ++ [item]) = inputs front ++ item.input?.toList := by
  rw [inputs_append]
  cases item <;> rfl

theorem singleInput_concat : SingleInput (front ++ [item]) ↔
    SingleInput front ∧ (inputs front = [] ∨ item.input? = none) := by
  rw [SingleInput, SingleInput, inputs_concat, List.length_append, ← List.length_eq_zero_iff]
  cases item.input? with
  | none => simp
  | some input =>
      simp only [Option.toList_some, List.length_singleton, reduceCtorEq, or_false]
      omega

theorem SingleInput.of_append (single : SingleInput (front ++ items)) : SingleInput front := by
  rw [SingleInput, inputs_append, List.length_append] at single
  exact Nat.le_trans (Nat.le_add_right _ _) single

/-! ## Splitting a command line

What stands behind some items begins with another one, or offends.  So there is only one
place where the items of a command line can stop. -/

/-- Arguments begin with an item, or with something that offends behind any items. -/
theorem begins (args : List String) :
    args = [] ∨ (∃ item rest, args = Item.args item ++ rest) ∨
      ∃ error, ∀ front, Offends front args error := by
  cases args with
  | nil => exact .inl rfl
  | cons arg rest =>
      right
      by_cases dash : arg.startsWith "-" = true
      · by_cases mem : arg ∈ Item.known
        · simp only [Item.known, List.mem_cons, List.not_mem_nil, or_false] at mem
          rcases mem with rfl | rfl | rfl | help
          · exact .inl ⟨.tree, rest, rfl⟩
          · exact .inl ⟨.uncoloured, rest, rfl⟩
          · cases rest with
            | nil => exact .inr ⟨_, fun _ => .missingCode⟩
            | cons text rest => exact .inl ⟨.code text, rest, rfl⟩
          · exact .inr ⟨_, fun _ => .help help⟩
        · exact .inr ⟨_, fun _ => .unknownOption dash mem⟩
      · exact .inl ⟨.file arg (eq_false_of_ne_true dash), rest, rfl⟩

theorem offends_of_second (single : SingleInput front) (second : ¬ SingleInput (front ++ [item]))
    (rest : List String) : ∃ error, Offends front (item.args ++ rest) error := by
  rw [singleInput_concat, not_and, not_or] at second
  obtain ⟨some, gives⟩ := second single
  cases item with
  | tree => exact absurd rfl gives
  | uncoloured => exact absurd rfl gives
  | code text => exact ⟨_, .extraCode some⟩
  | file path named => exact ⟨_, .extraFile named some⟩

theorem not_offends_of_item (single : SingleInput (front ++ [item])) (rest : List String) :
    ¬ Offends front (item.args ++ rest) error := by
  intro offends
  have first := (singleInput_concat.mp single).2
  generalize begun : item.args ++ rest = back at offends
  cases offends with
  | help asks => cases item <;> grind [Item.args, Item.ne_of_named]
  | unknownOption dash unknown => cases item <;> grind [Item.args, Item.known]
  | missingCode => cases item <;> grind [Item.args, Item.ne_of_named]
  | extraCode some =>
      have flag : item.input? = none := first.resolve_left some
      cases item <;> grind [Item.args, Item.ne_of_named, Item.input?]
  | extraFile named some =>
      have flag : item.input? = none := first.resolve_left some
      cases item <;> grind [Item.args, Item.ne_of_named, Item.input?]

theorem not_stops_of_item (single : SingleInput (front ++ [item])) (rest : List String) :
    ¬ Stops front (item.args ++ rest) := by
  rintro ⟨-, none | ⟨error, offends⟩⟩
  · exact item.args_ne_nil (List.append_eq_nil_iff.mp none).1
  · exact not_offends_of_item single rest offends

/-- A command line is items, up to its end or to the first place that offends. -/
theorem exists_stops (args : List String) : ∀ front, SingleInput front →
    ∃ items back, written items ++ back = args ∧ Stops (front ++ items) back := by
  intro front single
  have here {back : List String} (ends : back = [] ∨ ∃ error, Offends front back error) :
      Stops (front ++ []) back := (List.append_nil front).symm ▸ ⟨single, ends⟩
  rcases begins args with rfl | ⟨item, rest, rfl⟩ | ⟨error, offends⟩
  · exact ⟨[], [], rfl, here (.inl rfl)⟩
  · by_cases more : SingleInput (front ++ [item])
    · obtain ⟨items, back, rfl, stops⟩ := exists_stops rest _ more
      rw [← List.append_cons] at stops
      exact ⟨item :: items, back, written_cons item items back, stops⟩
    · exact ⟨[], _, rfl, here (.inr (offends_of_second single more rest))⟩
  · exact ⟨[], args, rfl, here (.inr ⟨error, offends _⟩)⟩
termination_by args.length
decreasing_by
  have some := List.length_pos_iff.mpr item.args_ne_nil
  subst_vars
  rw [List.length_append]
  omega

/-- There is no other way to split it: no argument is read in two roles. -/
theorem stops_unique {items' : List Item} {back' : List String}
    (same : written items ++ back = written items' ++ back') (stops : Stops (front ++ items) back)
    (stops' : Stops (front ++ items') back') : items = items' ∧ back = back' := by
  induction items generalizing front items' with
  | nil =>
      cases items' with
      | nil => exact ⟨rfl, same⟩
      | cons item items' =>
          rw [List.append_cons] at stops'
          rw [List.append_nil, show back = _ from same, written_cons] at stops
          exact absurd stops (not_stops_of_item stops'.1.of_append _)
  | cons item items ih =>
      rw [List.append_cons] at stops
      cases items' with
      | nil =>
          rw [List.append_nil, ← show _ = back' from same, written_cons] at stops'
          exact absurd stops' (not_stops_of_item stops.1.of_append _)
      | cons item' items' =>
          rw [written_cons, written_cons] at same
          rw [List.append_cons] at stops'
          obtain ⟨rfl, behind⟩ := Item.args_append_inj same
          obtain ⟨rfl, rfl⟩ := ih behind stops stops'
          exact ⟨rfl, rfl⟩

/-! ## Reading items

Reading adds what each item asks for to the options.  They tell whether an input was given:
as long as the prompt is asked for, no item has given one. -/

theorem asked_input_eq_prompt_iff : (asked items).input = .prompt ↔ inputs items = [] := by
  cases given : inputs items with
  | nil => simp [asked, given]
  | cons input later =>
      have nonprompt : input ≠ .prompt := by
        rintro rfl
        have mem : Input.prompt ∈ inputs items := given ▸ List.mem_cons_self
        obtain ⟨item, -, gives⟩ := List.mem_filterMap.mp mem
        exact item.input?_ne_prompt gives
      simp [asked, given, nonprompt]

theorem withInput_of_nil (none : inputs front = []) (input : Input) (given : String) :
    (asked front).withInput input given = .ok { asked front with input } :=
  if_pos (asked_input_eq_prompt_iff.mpr none)

theorem withInput_of_ne_nil (some : inputs front ≠ []) (input : Input) (given : String) :
    (asked front).withInput input given = .error (.extraInput given) :=
  if_neg fun prompting => some (asked_input_eq_prompt_iff.mp prompting)

theorem asked_concat_of_input (none : inputs front = []) (gives : item.input? = some input) :
    asked (front ++ [item]) = { asked front with input } := by
  have given : inputs (front ++ [item]) = [input] := by rw [inputs_concat, none, gives]; rfl
  cases item with
  | tree => exact nomatch gives
  | uncoloured => exact nomatch gives
  | code text => simp [asked, given]
  | file path named => simp [asked, given]

theorem readMore_code (options : Options) (text : String) (rest : List String) :
    options.readMore ("-e" :: text :: rest)
      = options.withInput (.code text) text >>= fun more => more.readMore rest := by
  rw [readMore]
  cases options.withInput (.code text) text <;> rfl

theorem readMore_of_not_known (options : Options) (unknown : arg ∉ Item.known)
    (rest : List String) :
    options.readMore (arg :: rest)
      = if arg.startsWith "-" then .error (.unknownOption arg)
        else options.withInput (.file arg) arg >>= fun more => more.readMore rest := by
  simp only [Item.known, List.mem_cons, not_or] at unknown
  rw [readMore]
  · cases options.withInput (.file arg) arg <;> rfl
  all_goals simp_all

theorem readMore_file (options : Options) (named : path.startsWith "-" = false)
    (rest : List String) :
    options.readMore (path :: rest)
      = options.withInput (.file path) path >>= fun more => more.readMore rest := by
  rw [readMore_of_not_known _ (Item.not_known named), named, if_neg Bool.false_ne_true]

theorem readMore_item (single : SingleInput (front ++ [item])) (rest : List String) :
    (asked front).readMore (item.args ++ rest) = (asked (front ++ [item])).readMore rest := by
  have first := (singleInput_concat.mp single).2
  cases item with
  | tree =>
      have adds : asked (front ++ [.tree]) = { asked front with format := .tree } := by
        simp [asked, inputs_concat, Item.input?]
      rw [adds]
      rfl
  | uncoloured =>
      have adds : asked (front ++ [.uncoloured]) = { asked front with colours := false } := by
        simp [asked, inputs_concat, Item.input?]
      rw [adds]
      rfl
  | code text =>
      have none := first.resolve_right nofun
      show (asked front).readMore ("-e" :: text :: rest) = _
      rw [readMore_code, withInput_of_nil none, asked_concat_of_input none rfl]
      rfl
  | file path named =>
      have none := first.resolve_right nofun
      show (asked front).readMore (path :: rest) = _
      rw [readMore_file _ named, withInput_of_nil none, asked_concat_of_input none rfl]
      rfl

/-- Items are read one after the other. -/
theorem readMore_written (front items : List Item) (back : List String)
    (single : SingleInput (front ++ items)) :
    (asked front).readMore (written items ++ back) = (asked (front ++ items)).readMore back := by
  induction items generalizing front with
  | nil =>
      rw [List.append_nil]
      rfl
  | cons item items ih =>
      rw [List.append_cons] at single ⊢
      rw [written_cons, readMore_item single.of_append, ih _ single]

/-- A place that offends ends the reading with its error. -/
theorem readMore_of_offends (offends : Offends front back error) :
    (asked front).readMore back = .error error := by
  cases offends with
  | help asks => rcases asks with rfl | rfl <;> rfl
  | unknownOption dash unknown => rw [readMore_of_not_known _ unknown, if_pos dash]
  | missingCode => rfl
  | extraCode some =>
      rw [readMore_code, withInput_of_ne_nil some]
      rfl
  | extraFile named some =>
      rw [readMore_file _ named, withInput_of_ne_nil some]
      rfl

/-! ## Command lines -/

theorem ofArgs_written (single : SingleInput items) :
    ofArgs (written items) = .ok (asked items) := by
  have read := readMore_written [] items [] single
  rwa [List.append_nil] at read

theorem ofArgs_of_offends (single : SingleInput items) (offends : Offends items back error) :
    ofArgs (written items ++ back) = .error error :=
  (readMore_written [] items back single).trans (readMore_of_offends offends)

/-- Every command line has one of the two outcomes. -/
theorem ofArgs_cases (args : List String) :
    (∃ items, written items = args ∧ SingleInput items ∧ ofArgs args = .ok (asked items)) ∨
      ∃ front back error, written front ++ back = args ∧ SingleInput front ∧
        Offends front back error ∧ ofArgs args = .error error := by
  obtain ⟨items, back, rfl, single, rfl | ⟨error, offends⟩⟩ := exists_stops args [] (Nat.zero_le _)
  · rw [List.append_nil]
    exact .inl ⟨items, rfl, single, ofArgs_written single⟩
  · exact .inr ⟨items, back, error, rfl, single, offends, ofArgs_of_offends single offends⟩

theorem ofArgs_eq_ok_iff {options : Options} :
    ofArgs args = .ok options ↔
      ∃ items, written items = args ∧ SingleInput items ∧ asked items = options := by
  constructor
  · intro read
    rcases ofArgs_cases args with ⟨items, whole, single, read'⟩ | ⟨_, _, _, _, _, _, failed⟩
    · exact ⟨items, whole, single, Except.ok.inj (read'.symm.trans read)⟩
    · exact nomatch failed.symm.trans read
  · rintro ⟨items, rfl, single, rfl⟩
    exact ofArgs_written single

theorem ofArgs_eq_error_iff :
    ofArgs args = .error error ↔
      ∃ front back, written front ++ back = args ∧ SingleInput front ∧
        Offends front back error := by
  constructor
  · intro failed
    rcases ofArgs_cases args with ⟨_, _, _, read⟩ | ⟨front, back, _, whole, single, offends, fails⟩
    · exact nomatch read.symm.trans failed
    · obtain rfl := Except.error.inj (fails.symm.trans failed)
      exact ⟨front, back, whole, single, offends⟩
  · rintro ⟨front, back, rfl, single, offends⟩
    exact ofArgs_of_offends single offends

/-! ## Items in another order -/

theorem asked_congr (given : inputs others = inputs items)
    (same : ∀ item, item ∈ others ↔ item ∈ items) : asked others = asked items := by
  simp only [asked, given, same]

/-- Items in another order, with further flags among them, give the same input. -/
theorem inputs_rearranged {repeated : List Item} (single : SingleInput items)
    (flags : ∀ flag ∈ repeated, flag.input? = none)
    (rearranged : others.Perm (items ++ repeated)) : inputs others = inputs items := by
  have nothing : inputs repeated = [] := List.filterMap_eq_nil_iff.mpr flags
  have given : (inputs others).Perm (inputs items) := by
    have all : (inputs others).Perm (inputs (items ++ repeated)) := rearranged.filterMap _
    rwa [inputs_append, nothing, List.append_nil] at all
  -- up to one element, a list has only one order
  rw [SingleInput] at single
  match inputs items, single, given with
  | [], _, given => exact given.eq_nil
  | [_], _, given => exact given.eq_singleton

theorem ofArgs_rearranged {repeated : List Item} (single : SingleInput items)
    (flags : ∀ flag ∈ repeated, flag ∈ items ∧ flag.input? = none)
    (rearranged : others.Perm (items ++ repeated)) :
    ofArgs (written others) = ofArgs (written items) := by
  have given := inputs_rearranged single (fun flag mem => (flags flag mem).2) rearranged
  have same (item : Item) : item ∈ others ↔ item ∈ items := by
    rw [rearranged.mem_iff, List.mem_append]
    exact ⟨fun mem => mem.elim id fun mem => (flags item mem).1, .inl⟩
  have single' : SingleInput others := by rwa [SingleInput, given]
  rw [ofArgs_written single, ofArgs_written single', asked_congr given same]

/-- A command line is carried out if and only if it consists of items with at most one input,
and then as these ask; otherwise the first place that offends decides.  There is one way to
split it.  The items may stand in another order, and flags be repeated. -/
theorem ofArgs_items (args : List String) :
    (∀ options, ofArgs args = .ok options ↔
      ∃ items, written items = args ∧ SingleInput items ∧ asked items = options) ∧
    (∀ error, ofArgs args = .error error ↔
      ∃ front back, written front ++ back = args ∧ SingleInput front ∧
        Offends front back error) ∧
    (∃! split : List Item × List String,
      written split.1 ++ split.2 = args ∧ Stops split.1 split.2) ∧
    ∀ items repeated others : List Item, written items = args → SingleInput items →
      (∀ flag ∈ repeated, flag ∈ items ∧ flag.input? = none) → others.Perm (items ++ repeated) →
      ofArgs (written others) = ofArgs args := by
  refine ⟨fun _ => ofArgs_eq_ok_iff, fun _ => ofArgs_eq_error_iff, ?_, ?_⟩
  · obtain ⟨items, back, rfl, stops⟩ := exists_stops args [] (Nat.zero_le _)
    refine ⟨(items, back), ⟨rfl, stops⟩, fun (items', back') ⟨same, stops'⟩ => ?_⟩
    obtain ⟨rfl, rfl⟩ := @stops_unique [] _ _ _ _ same stops' stops
    rfl
  · rintro items repeated others rfl single flags rearranged
    exact ofArgs_rearranged single flags rearranged

/-- What looks like a flag behind `-e` is code, and none of the flags; behind an input another
one offends before help is asked for. -/
theorem ofArgs_items_of_swallowed :
    SingleInput [.tree, .code "--no-color"] ∧
      ofArgs ["--ast", "-e", "--no-color"] = .ok ⟨.code "--no-color", .tree, true⟩ ∧
      ofArgs ["-e", "--no-color", "--ast", "--ast"] = .ok ⟨.code "--no-color", .tree, true⟩ ∧
      ofArgs ["-e", "--ast", "-e", "-h", "--help"] = .error (.extraInput "-h") := by
  have single : SingleInput [.tree, .code "--no-color"] := by decide
  have flags : ∀ flag ∈ [Item.tree], flag ∈ [.tree, .code "--no-color"] ∧ flag.input? = none := by
    decide
  have rearranged :
      [Item.code "--no-color", .tree, .tree].Perm ([.tree, .code "--no-color"] ++ [.tree]) := by
    decide
  obtain ⟨carriedOut, -, -, stable⟩ := ofArgs_items ["--ast", "-e", "--no-color"]
  have read := (carriedOut _).mpr ⟨[.tree, .code "--no-color"], rfl, single, rfl⟩
  obtain ⟨-, refused, -⟩ := ofArgs_items ["-e", "--ast", "-e", "-h", "--help"]
  exact ⟨single, read, (stable _ _ _ rfl single flags rearranged).trans read,
    (refused _).mpr ⟨[.code "--ast"], _, rfl, by decide, .extraCode nofun⟩⟩

end RubyReader.Options
