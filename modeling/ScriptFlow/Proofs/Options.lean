import Mathlib.Data.List.Induction
import Mathlib.Data.List.Sort
import ScriptFlow.Options

/-!
# What an object says about options

An object is read as the mapping that its fields stand for: its keys in the order of their
first places (`Options.keys`), each with the last of its values (`Options.value?`).

`Options.Reads` lists what may come of it. Options are read if all keys are names of options
and all values are truth values. A key that is no name is reported, with all others of its
kind, whatever the values are; only if there is none the first value matters that is no truth
value. `Options.ofFields_spec` says that this is what comes of any fields, and that their order
decides at most which value is reported. The message of a fault names what it reports: all the
unknown keys, with commas between them, or the one key without a truth value.
-/

namespace ScriptFlow

/-! ## The order of texts -/

namespace Text

/-- One text stands before another if its code points do. -/
instance : LT Text := ⟨fun first second => first.points < second.points⟩

instance : Std.Irrefl (α := Text) (· < ·) := ⟨fun text => List.lt_irrefl text.points⟩

instance : Std.Antisymm (α := Text) (· < ·) :=
  ⟨fun _ _ before after => (List.lt_asymm before after).elim⟩

/-- Standing no later means standing before or being equal, in the order of lists. -/
theorem noLater_iff {first second : List Nat} :
    noLater first second = true ↔ first < second ∨ first = second := by
  induction first generalizing second with
  | nil => cases second <;> simp [noLater]
  | cons point rest ih =>
      cases second with
      | nil => simp [noLater]
      | cons other others =>
          simp only [noLater, Bool.or_eq_true, Bool.and_eq_true, decide_eq_true_eq, ih,
            List.cons_lt_cons_iff, List.cons.injEq]
          grind

theorem lt_of_le_of_ne {first second : Text} (le : first ≤ second) (ne : first ≠ second) :
    first < second := by
  refine (noLater_iff.mp le).resolve_right fun same => ne ?_
  cases first
  cases second
  exact congrArg mk same

end Text

namespace Options

variable {fields settled others : List (Text × Json)} {key name : Text} {value : Json}
  {flag : Bool} {options : Options}

/-! ## Mappings -/

/-- The keys of fields, each once, in the order of their first places. -/
def keys (fields : List (Text × Json)) : List Text :=
  (fields.map (·.1)).eraseDups

/-- The value of a key: that of the last field with the key. -/
def value? (fields : List (Text × Json)) (key : Text) : Option Json :=
  fields.reverse.lookup key

/-- Setting a key adds it at the end, unless it is there already. -/
theorem keys_put (key : Text) (value : Json) (settled : List (Text × Json)) :
    (put key value settled).map (·.1) =
      if key ∈ settled.map (·.1) then settled.map (·.1) else settled.map (·.1) ++ [key] := by
  induction settled with
  | nil => rfl
  | cons field rest ih =>
      rw [put]
      by_cases same : field.1 = key
      · simp [same]
      · simp only [if_neg same, List.map_cons, ih, List.mem_cons, Ne.symm same, false_or]
        split <;> rfl

theorem lookup_cons (field : Text × Json) (rest : List (Text × Json)) (name : Text) :
    (field :: rest).lookup name = if name = field.1 then some field.2 else rest.lookup name := by
  rw [List.lookup_cons]
  by_cases same : name = field.1
  · rw [if_pos same, beq_iff_eq.mpr same]
  · rw [if_neg same, beq_false_of_ne same]

/-- Setting a key changes its value and no other. -/
theorem lookup_put (key name : Text) (value : Json) (settled : List (Text × Json)) :
    (put key value settled).lookup name =
      if name = key then some value else settled.lookup name := by
  induction settled with
  | nil => exact lookup_cons (key, value) [] name
  | cons field rest ih =>
      rw [put]
      split
      next same =>
        rw [lookup_cons, lookup_cons, same]
        split <;> rfl
      next other =>
        rw [lookup_cons, lookup_cons, ih]
        split
        next here => rw [if_neg (here ▸ other)]
        next => rfl

theorem mem_keys : key ∈ keys fields ↔ key ∈ fields.map (·.1) :=
  List.mem_eraseDups

/-- A further field adds its key at the end, unless an earlier one has it. -/
theorem keys_concat (fields : List (Text × Json)) (field : Text × Json) :
    keys (fields ++ [field]) =
      if field.1 ∈ keys fields then keys fields else keys fields ++ [field.1] := by
  have new : [field.1].removeAll (fields.map (·.1)) =
      if field.1 ∈ keys fields then [] else [field.1] := by
    by_cases listed : field.1 ∈ keys fields <;> simp [List.removeAll, ← mem_keys, listed]
  rw [keys, List.map_append, List.eraseDups_append, List.map_singleton, new, ← keys]
  split
  next => exact List.append_nil _
  next => rfl

/-- A further field decides the value of its key. -/
theorem value?_concat (fields : List (Text × Json)) (field : Text × Json) (key : Text) :
    value? (fields ++ [field]) key =
      if key = field.1 then some field.2 else value? fields key := by
  rw [value?, List.reverse_concat, lookup_cons]
  rfl

theorem mapping_concat (fields : List (Text × Json)) (field : Text × Json) :
    mapping (fields ++ [field]) = put field.1 field.2 (mapping fields) :=
  List.foldl_concat ..

/-- The keys of a mapping stand in the order of their first places. -/
theorem keys_mapping (fields : List (Text × Json)) :
    (mapping fields).map (·.1) = keys fields := by
  induction fields using List.reverseRecOn with
  | nil => rfl
  | append_singleton fields field ih => rw [mapping_concat, keys_put, ih, keys_concat]

/-- The value of a key in a mapping is the last that it has been given. -/
theorem lookup_mapping (fields : List (Text × Json)) (key : Text) :
    (mapping fields).lookup key = value? fields key := by
  induction fields using List.reverseRecOn with
  | nil => rfl
  | append_singleton fields field ih => rw [mapping_concat, lookup_put, ih, value?_concat]

/-- No key stands at two places. -/
theorem nodup_keys (fields : List (Text × Json)) : (keys fields).Nodup := by
  induction fields using List.reverseRecOn with
  | nil => exact .nil
  | append_singleton fields field ih =>
      rw [keys_concat]
      split
      next => exact ih
      next new =>
        rw [List.nodup_append_comm]
        exact List.nodup_cons.mpr ⟨new, ih⟩

/-- A mapping has a key at one place, with the value of the key. -/
theorem value?_eq_some_iff : value? fields key = some value ↔ (key, value) ∈ mapping fields := by
  rw [← lookup_mapping, List.lookup_eq_some_iff]
  constructor
  · rintro ⟨front, back, split, -⟩
    exact split ▸ List.mem_append_right front List.mem_cons_self
  · intro listed
    obtain ⟨front, back, split⟩ := List.append_of_mem listed
    have once := nodup_keys fields
    rw [← keys_mapping, split, List.map_append, List.map_cons, List.nodup_middle] at once
    refine ⟨front, back, split, fun field early => bne_iff_ne.mpr fun same => ?_⟩
    have again : key ∈ front.map (·.1) := List.mem_map.mpr ⟨field, early, same.symm⟩
    exact (List.nodup_cons.mp once).1 (List.mem_append_left _ again)

/-- A key is one that has a value. -/
theorem mem_keys_iff_value? : key ∈ keys fields ↔ ∃ value, value? fields key = some value := by
  rw [← keys_mapping]
  constructor
  · intro listed
    obtain ⟨⟨key, value⟩, there, rfl⟩ := List.mem_map.mp listed
    exact ⟨value, value?_eq_some_iff.mpr there⟩
  · rintro ⟨value, found⟩
    exact List.mem_map.mpr ⟨_, value?_eq_some_iff.mp found, rfl⟩

theorem isNotBoolean_eq_false_iff : isNotBoolean value = false ↔ ∃ flag, value = .bool flag := by
  cases value <;> simp [isNotBoolean]

theorem flag?_eq_some_iff : flag? settled key = some flag ↔
    settled.lookup key = some (.bool flag) := by
  unfold flag?
  split
  next found => rw [found, Option.some.injEq, Option.some.injEq, Json.bool.injEq]
  next other => simpa using other flag

/-! ## Options by their names -/

/-- The name is that of an option. -/
def IsName (name : Text) : Prop :=
  name = findDeadEdgesName ∨ name = verifyName

/-- The option with a name. -/
def get? (options : Options) (name : Text) : Option Bool :=
  if name = findDeadEdgesName then some options.findDeadEdges
  else if name = verifyName then some options.verify
  else none

theorem isKnown_iff : isKnown name = true ↔ IsName name := by
  simp [isKnown, IsName]

theorem not_isKnown_iff : (!isKnown name) = true ↔ ¬ IsName name := by
  rw [← isKnown_iff, Bool.not_eq_true', Bool.not_eq_true]

/-- Options are the same if they have the same value under each name. -/
theorem eq_of_get? {other : Options} (same : ∀ name, options.get? name = other.get? name) :
    options = other := by
  have marks := same findDeadEdgesName
  have audits := same verifyName
  have apart : verifyName ≠ findDeadEdgesName := by decide
  simp only [get?, if_true, if_neg apart, Option.some.injEq] at marks audits
  cases options
  cases other
  rw [Options.mk.injEq]
  exact ⟨marks, audits⟩

/-- The options that a mapping of names to truth values sets. -/
def ofFlags (settled : List (Text × Json)) : Options where
  findDeadEdges := (flag? settled findDeadEdgesName).getD ({} : Options).findDeadEdges
  verify := (flag? settled verifyName).getD ({} : Options).verify

/-- An option has the truth value that the mapping sets, and its default if it sets none. -/
theorem get?_ofFlags (settled : List (Text × Json)) (name : Text) :
    (ofFlags settled).get? name =
      (({} : Options).get? name).map ((flag? settled name).getD ·) := by
  unfold get?
  split
  next same => rw [same]; rfl
  next =>
    split
    next same => rw [same]; rfl
    next => rfl

/-! ## What comes of fields -/

/-- What may come of fields, and when. -/
inductive Reads (fields : List (Text × Json)) : Except OptionsFault Options → Prop
  /-- Every key is a name and has a truth value, which is that of the option. The other
  options have their defaults. -/
  | accepted {options : Options} :
    (∀ key ∈ keys fields, IsName key) →
    (∀ key ∈ keys fields, ∃ flag, value? fields key = some (.bool flag) ∧
      options.get? key = some flag) →
    (∀ key ∉ keys fields, options.get? key = ({} : Options).get? key) →
    Reads fields (.ok options)
  /-- Some keys are no names. They are reported in their order, each once. -/
  | unknown {names : List Text} :
    names ≠ [] → names.Pairwise (· < ·) →
    (∀ name, name ∈ names ↔ name ∈ keys fields ∧ ¬ IsName name) →
    Reads fields (.error (.unknown names))
  /-- Every key is a name. The first one that has no truth value is reported. -/
  | notBoolean {name : Text} {front back : List Text} :
    (∀ key ∈ keys fields, IsName key) → keys fields = front ++ name :: back →
    (∀ key ∈ front, ∃ flag, value? fields key = some (.bool flag)) →
    (∀ flag, value? fields name ≠ some (.bool flag)) →
    Reads fields (.error (.notBoolean name))

section Computed

variable (fields : List (Text × Json))

/-- Where all keys are names with truth values, these are what the options are. -/
theorem reads_ofFlags (known : ∀ key ∈ keys fields, IsName key)
    (flags : ∀ key ∈ keys fields, ∃ flag, value? fields key = some (.bool flag)) :
    Reads fields (.ok (ofFlags (mapping fields))) := by
  refine .accepted known (fun key listed => ?_) fun key unlisted => ?_
  · obtain ⟨flag, found⟩ := flags key listed
    refine ⟨flag, found, ?_⟩
    rw [get?_ofFlags, flag?_eq_some_iff.mpr ((lookup_mapping fields key).trans found)]
    rcases known key listed with rfl | rfl <;> rfl
  · have absent : flag? (mapping fields) key = none := by
      rw [Option.eq_none_iff_forall_ne_some]
      intro flag found
      rw [flag?_eq_some_iff, lookup_mapping] at found
      exact unlisted (mem_keys_iff_value?.mpr ⟨_, found⟩)
    rw [get?_ofFlags, absent]
    exact Option.map_id'

/-- The first field of the mapping without a truth value has the first key of that kind. -/
theorem reads_notBoolean (known : ∀ key ∈ keys fields, IsName key)
    (found : (mapping fields).find? (fun field => isNotBoolean field.2) = some (name, value)) :
    Reads fields (.error (.notBoolean name)) := by
  obtain ⟨holds, front, back, split, early⟩ := List.find?_eq_some_iff_append.mp found
  have order : keys fields = front.map (·.1) ++ name :: back.map (·.1) := by
    rw [← keys_mapping, split, List.map_append, List.map_cons]
  refine .notBoolean known order (fun key listed => ?_) fun flag same => ?_
  · obtain ⟨⟨key, value⟩, there, rfl⟩ := List.mem_map.mp listed
    obtain ⟨flag, rfl⟩ := isNotBoolean_eq_false_iff.mp ((Bool.not_eq_true' _).mp (early _ there))
    exact ⟨flag, value?_eq_some_iff.mpr (split ▸ List.mem_append_left _ there)⟩
  · have here : value? fields name = some value :=
      value?_eq_some_iff.mpr (split ▸ List.mem_append_right _ List.mem_cons_self)
    rw [here] at same
    cases same
    cases holds

/-- Sorted, the keys that are no names stand in their order, each once. -/
theorem reads_unknown (some : (keys fields).filter (fun name => !isKnown name) ≠ []) :
    Reads fields (.error (.unknown
      (((keys fields).filter fun name => !isKnown name).mergeSort (· ≤ ·)))) := by
  generalize found : (keys fields).filter (fun name => !isKnown name) = names at some
  have perm : (names.mergeSort (· ≤ ·)).Perm names := List.mergeSort_perm ..
  refine .unknown (fun none => some (List.Perm.nil_eq (none ▸ perm)).symm) ?_ fun name => ?_
  · have sorted : (names.mergeSort (· ≤ ·)).Pairwise (· ≤ ·) := by
      refine (List.pairwise_mergeSort ?_ ?_ names).imp of_decide_eq_true
      · simpa using fun _ _ _ => Text.le_trans
      · simpa using Text.le_total
    have once : (names.mergeSort (· ≤ ·)).Nodup :=
      perm.nodup_iff.mpr (found ▸ (nodup_keys fields).filter _)
    exact (sorted.and once).imp fun both => Text.lt_of_le_of_ne both.1 both.2
  · rw [List.mem_mergeSort, ← found, List.mem_filter, not_isKnown_iff]

/-- Something comes of any fields, and it is what is computed. -/
theorem reads_ofFields : Reads fields (ofFields fields) := by
  unfold ofFields
  dsimp only
  rw [keys_mapping]
  split
  next none =>
    have known : ∀ key ∈ keys fields, IsName key := by
      simpa [isKnown_iff] using none
    split
    next name value found => exact reads_notBoolean fields known found
    next all =>
      refine reads_ofFlags fields known fun key listed => ?_
      obtain ⟨value, found⟩ := mem_keys_iff_value?.mp listed
      have holds := List.find?_eq_none.mp all _ (value?_eq_some_iff.mp found)
      obtain ⟨flag, rfl⟩ := isNotBoolean_eq_false_iff.mp (Bool.not_eq_true _ ▸ holds)
      exact ⟨flag, found⟩
  next some => exact reads_unknown fields some

end Computed

/-! ## Nothing else comes of them -/

theorem not_known_of_unknown {names : List Text} (some : names ≠ [])
    (mem : ∀ name, name ∈ names ↔ name ∈ keys fields ∧ ¬ IsName name) :
    ¬ ∀ key ∈ keys fields, IsName key := by
  obtain ⟨name, reported⟩ := List.exists_mem_of_ne_nil names some
  obtain ⟨listed, foreign⟩ := (mem name).mp reported
  exact fun known => foreign (known name listed)

/-- The key that is reported for its value is the first of its kind. -/
theorem find?_of_notBoolean {front back : List Text} (order : keys fields = front ++ name :: back)
    (flags : ∀ key ∈ front, ∃ flag, value? fields key = some (.bool flag))
    (none : ∀ flag, value? fields name ≠ some (.bool flag)) :
    (keys fields).find? (fun key => (flag? fields.reverse key).isNone) = some name := by
  rw [List.find?_eq_some_iff_append]
  refine ⟨?_, front, back, order, fun key early => ?_⟩
  · rw [Option.isNone_iff_eq_none, Option.eq_none_iff_forall_ne_some]
    exact fun flag found => none flag (flag?_eq_some_iff.mp found)
  · obtain ⟨flag, found⟩ := flags key early
    rw [flag?_eq_some_iff.mpr found]
    rfl

/-- Only one thing may come of fields. -/
theorem Reads.unique {first second : Except OptionsFault Options} (one : Reads fields first)
    (two : Reads fields second) : first = second := by
  cases one with
  | accepted known flags defaults =>
      cases two with
      | accepted _ others rest =>
          refine congrArg _ (eq_of_get? fun key => ?_)
          by_cases listed : key ∈ keys fields
          · obtain ⟨flag, found, same⟩ := flags key listed
            obtain ⟨other, again, alike⟩ := others key listed
            rw [found, Option.some.injEq, Json.bool.injEq] at again
            rw [same, alike, again]
          · rw [defaults key listed, rest key listed]
      | unknown some _ mem => exact (not_known_of_unknown some mem known).elim
      | notBoolean _ order _ none =>
          obtain ⟨flag, found, -⟩ := flags _ (order ▸ List.mem_append_right _ List.mem_cons_self)
          exact (none flag found).elim
  | unknown some rising mem =>
      cases two with
      | accepted known => exact (not_known_of_unknown some mem known).elim
      | unknown _ sorted same =>
          rw [rising.eq_of_mem_iff sorted fun name => (mem name).trans (same name).symm]
      | notBoolean known => exact (not_known_of_unknown some mem known).elim
  | notBoolean known order flags none =>
      cases two with
      | accepted _ others =>
          obtain ⟨flag, found, -⟩ := others _ (order ▸ List.mem_append_right _ List.mem_cons_self)
          exact (none flag found).elim
      | unknown some _ mem => exact (not_known_of_unknown some mem known).elim
      | notBoolean _ again before none' =>
          have same := find?_of_notBoolean order flags none
          rw [find?_of_notBoolean again before none', Option.some.injEq] at same
          rw [same]

/-- What is computed is what comes of the fields. -/
theorem ofFields_eq_iff (fields : List (Text × Json)) (result : Except OptionsFault Options) :
    ofFields fields = result ↔ Reads fields result := by
  refine ⟨?_, (reads_ofFields fields).unique⟩
  rintro rfl
  exact reads_ofFields fields

/-! ## The order of fields -/

/-- Options that are read depend on the values of the keys only. -/
theorem Reads.accepted_congr (same : ∀ key, value? others key = value? fields key)
    (reads : Reads fields (.ok options)) : Reads others (.ok options) := by
  have listed : ∀ key, key ∈ keys others ↔ key ∈ keys fields := by
    simp only [mem_keys_iff_value?, same, implies_true]
  cases reads with
  | accepted known flags defaults =>
      refine .accepted ?_ ?_ ?_
      · exact fun key there => known key ((listed key).mp there)
      · exact fun key there => same key ▸ flags key ((listed key).mp there)
      · exact fun key absent => defaults key (mt (listed key).mpr absent)

/-- The names that are reported as unknown depend on the keys only. -/
theorem Reads.unknown_congr {names : List Text}
    (same : ∀ key, key ∈ keys others ↔ key ∈ keys fields)
    (reads : Reads fields (.error (.unknown names))) :
    Reads others (.error (.unknown names)) := by
  cases reads with
  | unknown some rising mem =>
      exact .unknown some rising fun name => (mem name).trans (and_congr_left' (same name).symm)

/-- **Options of an object.** Options are read just if every key is a name and has a truth
value, and they have these values, or else their defaults. Otherwise all keys that are no names
are reported, in their order, or if there is none the first key without a truth value, and the
message names just the keys that are reported. Neither the options nor the names reported depend
on the order of the fields. -/
theorem ofFields_spec (fields : List (Text × Json)) :
    (∀ result, ofFields fields = result ↔ Reads fields result) ∧
    ((∃ options, ofFields fields = .ok options) ↔
      ∀ key ∈ keys fields, IsName key ∧ ∃ flag, value? fields key = some (.bool flag)) ∧
    ((∃ names, ofFields fields = .error (.unknown names)) ↔ ∃ key ∈ keys fields, ¬ IsName key) ∧
    (∀ fault, ofFields fields = .error fault →
      (∃ names, fault = .unknown names ∧
        fault.message.points = Text.points "unknown analysis options: " ++
          (Text.points ", ").intercalate (names.map Text.points)) ∨
      ∃ name, fault = .notBoolean name ∧
        fault.message.points = Text.points "analysis option '" ++ name.points ++
          Text.points "' must be a boolean") ∧
    (∀ others options, (∀ key, value? others key = value? fields key) →
      ofFields fields = .ok options → ofFields others = .ok options) ∧
    ∀ others names, (∀ key, key ∈ keys others ↔ key ∈ keys fields) →
      ofFields fields = .error (.unknown names) → ofFields others = .error (.unknown names) := by
  simp only [ofFields_eq_iff, implies_true, true_and]
  refine ⟨⟨?_, ?_⟩, ⟨?_, ?_⟩, ?_, ?_, ?_⟩
  · rintro ⟨options, reads⟩ key listed
    cases reads with
    | accepted known flags _ =>
        obtain ⟨flag, found, -⟩ := flags key listed
        exact ⟨known key listed, flag, found⟩
  · intro fits
    exact ⟨_, reads_ofFlags fields (fun key listed => (fits key listed).1)
      fun key listed => (fits key listed).2⟩
  · rintro ⟨names, reads⟩
    cases reads with
    | unknown some _ mem => simpa using not_known_of_unknown some mem
  · rintro ⟨key, listed, foreign⟩
    have filtered : key ∈ (keys fields).filter fun name => !isKnown name :=
      List.mem_filter.mpr ⟨listed, not_isKnown_iff.mpr foreign⟩
    exact ⟨_, reads_unknown fields (List.ne_nil_of_mem filtered)⟩
  · intro fault reads
    cases reads with
    | @unknown names => exact .inl ⟨names, rfl, rfl⟩
    | @notBoolean name => exact .inr ⟨name, rfl, rfl⟩
  · exact fun others options same reads => reads.accepted_congr same
  · exact fun others names same reads => reads.unknown_congr same

example : ofFields [("verify", .bool true), ("find_dead_edges", .number (.integer 0)),
    ("verify", .number (.integer 1))] = .error (.notBoolean "verify") := by decide

example : (ofFields [("walk", .null), ("verify", .bool true), ("mark", .bool true),
    ("walk", .bool true)]).mapError OptionsFault.message =
      .error "unknown analysis options: mark, walk" := by cbv

end Options

end ScriptFlow
