import MethodHistory.Settings.File

/-!
This module contains the settings that are made of values of the kinds they are meant for: their
faults lie in these values, and what is made of them has the right kinds again.
-/

namespace MethodHistory
namespace Settings

variable {α β : Type} {values : Values} {settings : Settings}

def Gives (p : α → Prop) : Except SettingsFault α → Prop
  | .ok a => p a
  | .error fault => fault.isOfValue

instance (p : α → Prop) [DecidablePred p]
    : (result : Except SettingsFault α) → Decidable (Gives p result)
  | .ok a => inferInstanceAs (Decidable (p a))
  | .error fault => inferInstanceAs (Decidable (fault.isOfValue = true))

namespace Gives

variable {p : α → Prop} {q : β → Prop}

theorem bind {result : Except SettingsFault α} {next : α → Except SettingsFault β}
    (hresult : Gives p result) (hnext : ∀ a, p a → Gives q (next a))
    : Gives q (result >>= next) := by
  cases result with
  | ok a => exact hnext a hresult
  | error fault => exact hresult

theorem map {result : Except SettingsFault α} {f : α → β} (hresult : Gives p result)
    (hf : ∀ a, p a → q (f a)) : Gives q (result.map f) := by
  cases result with
  | ok a => exact hf a hresult
  | error fault => exact hresult

theorem mapError {ε : Type} (result : Except ε α) {f : ε → SettingsFault}
    (hf : ∀ fault, (f fault).isOfValue) : Gives (fun a => result = .ok a) (result.mapError f) := by
  cases result with
  | ok a => rfl
  | error fault => exact hf fault

theorem exists_fault {result : Except SettingsFault α} (h : Gives (fun _ => False) result)
    : ∃ fault, result = .error fault ∧ fault.isOfValue := by
  cases result with
  | ok a => exact h.elim
  | error fault => exact ⟨fault, rfl, h⟩

end Gives

theorem exists_fault_of_not_gives {result : Except SettingsFault α}
    (h : ¬Gives (fun _ => True) result)
    : ∃ fault, result = .error fault ∧ fault.isOfValue = false := by
  cases result with
  | ok a => exact absurd trivial h
  | error fault => exact ⟨fault, rfl, Bool.not_eq_true _ ▸ h⟩

/-! Values of the right kinds -/

def isText : Json → Bool
  | .text _ => true
  | _ => false

def isNull : Json → Bool
  | .null => true
  | _ => false

def isNumber (json : Json) : Bool :=
  json.number?.isSome

def isMeant (name : String) (value : Json) : Bool :=
  if name ∈ ["repo", "project_name", "lower", "upper", "mode", "package_name", "suffix"] then
    isText value
  else if name ∈ ["since", "output", "github_token"] then
    isNull value || isText value
  else if name = "record_limit" then
    isNull value || isNumber value
  else
    match name, value with
    | "exclude_tests", .bool _ => true
    | "progress_span", .list items => items.all isNumber
    | _, _ => false

def AreMeant (values : Values) : Prop :=
  ∀ x ∈ values, ∀ name ∈ names, x.1 = .ofText name → isMeant name x.2

theorem exists_text {value : Json} (h : isText value) : ∃ text, value = .text text := by
  cases value <;> first | contradiction | exact ⟨_, rfl⟩

theorem eq_null {value : Json} (h : isNull value) : value = .null := by
  cases value <;> first | contradiction | rfl

theorem mem_of_lookup {name : String} {value : Json} (h : Json.lookup name values = some value)
    : (.ofText name, value) ∈ values := by
  obtain ⟨x, hx, rfl⟩ := Option.map_eq_some_iff.1 h
  have hname := List.find?_some hx
  rw [decide_eq_true_iff] at hname
  rw [← hname]
  exact List.mem_reverse.1 (List.mem_of_find?_eq_some hx)

theorem isMeant_value (h : AreMeant values) (name : String) {default : Json} (hname : name ∈ names)
    (hdefault : isMeant name default) : isMeant name (values.value name default) := by
  rw [Values.value]
  cases hlookup : Json.lookup name values with
  | none => exact hdefault
  | some value => exact h _ (mem_of_lookup hlookup) name hname rfl

/-! What is made of such values -/

structure IsTyped (settings : Settings) : Prop where
  repository : isText settings.repository
  project : isText settings.project
  mode : ∃ mode, settings.mode = .read mode
  recordLimit : isNull settings.recordLimit || isNumber settings.recordLimit
  output : isNull settings.output || isText settings.output
  span : settings.span.all isNumber

theorem gives_mode (h : AreMeant values) : Gives (fun mode => ∃ m, mode = .read m) values.mode := by
  have hmode := @isMeant_value values h "mode" (.text Mode.positional.label) (by decide) rfl
  obtain ⟨text, htext⟩ := exists_text hmode
  rw [Values.mode, htext]
  dsimp only
  split
  next mode _ => exact ⟨mode, rfl⟩
  next => rfl

theorem gives_since (h : AreMeant values) : Gives (fun _ => True) values.since := by
  have hsince := @isMeant_value values h "since" .null (by decide) rfl
  rw [Values.since]
  rcases Bool.or_eq_true_iff.1 hsince with hnull | htext
  . rw [eq_null hnull]
    trivial
  . obtain ⟨text, htext⟩ := exists_text htext
    rw [htext]
    dsimp only
    split
    next => trivial
    next => exact (Gives.mapError _ fun _ => rfl).map fun _ _ => trivial

theorem gives_span (h : AreMeant values) : Gives (·.all isNumber) values.span := by
  have hspan := @isMeant_value values h "progress_span" Values.defaultSpan (by decide) rfl
  rw [Values.span]
  generalize values.value "progress_span" Values.defaultSpan = span at hspan
  cases span with
  | list items => exact hspan
  | _ => contradiction

theorem isText_repository (h : AreMeant values) (hrepository : (Json.lookup "repo" values).isSome)
    : isText (values.value "repo" .null) := by
  obtain ⟨value, hvalue⟩ := Option.isSome_iff_exists.1 hrepository
  rw [Values.value, hvalue]
  exact h _ (mem_of_lookup hvalue) "repo" (by decide) rfl

theorem gives_project (h : AreMeant values) (hrepository : (Json.lookup "repo" values).isSome)
    : Gives (isText ·) values.project := by
  have hname := @isMeant_value values h "project_name" (.text "") (by decide) rfl
  obtain ⟨repository, heq⟩ := exists_text (isText_repository h hrepository)
  rw [Values.project, heq]
  dsimp only
  split
  next => exact hname
  next => rfl

theorem gives_ofValues (environment : Json) (h : AreMeant values)
    (hknown : ∀ x ∈ values, isName x.1) (hrepository : (Json.lookup "repo" values).isSome)
    : Gives IsTyped (ofValues environment values) := by
  have hnone : values.find? (fun x => !isName x.1) = none := by
    rw [List.find?_eq_none]
    intro x hx
    simp [hknown x hx]
  have hsome : (Json.lookup "repo" values).isNone = false := by
    rw [← Option.not_isSome, hrepository]
    rfl
  rw [ofValues]
  simp only [hnone, hsome]
  rw [if_neg Bool.false_ne_true]
  apply (gives_mode h).bind
  intro mode hmode
  apply (gives_since h).bind
  intro since _
  apply (gives_span h).bind
  intro span hspan
  apply (gives_project h hrepository).bind
  intro project hproject
  exact ⟨isText_repository h hrepository, hproject, hmode,
    isMeant_value h "record_limit" (by decide) rfl, isMeant_value h "output" (by decide) rfl, hspan⟩

/-! What keeps settings from describing a run -/

theorem exists_hasRepository (h : settings.IsTyped) : ∃ b, settings.hasRepository = .ok b := by
  obtain ⟨repository, heq⟩ := exists_text h.repository
  rw [hasRepository, heq]
  split <;> exact ⟨_, rfl⟩

theorem exists_hasLimit (h : settings.IsTyped) : ∃ b, settings.hasLimit = .ok b := by
  rw [hasLimit]
  have hlimit := h.recordLimit
  generalize settings.recordLimit = limit at hlimit
  rcases Bool.or_eq_true_iff.1 hlimit with hnull | hnumber
  . rw [eq_null hnull]
    exact ⟨true, rfl⟩
  . obtain ⟨number, hnumber⟩ := Option.isSome_iff_exists.1 hnumber
    rw [hnumber]
    cases limit <;> exact ⟨_, rfl⟩

theorem exists_isSpan {start stop : Json} (hstart : isNumber start) (hstop : isNumber stop)
    : ∃ b, isSpan start stop = .ok b := by
  obtain ⟨low, hlow⟩ := Option.isSome_iff_exists.1 hstart
  obtain ⟨high, hhigh⟩ := Option.isSome_iff_exists.1 hstop
  rw [isSpan, hlow, hhigh]
  dsimp only
  split <;> exact ⟨_, rfl⟩

theorem gives_validate (h : settings.IsTyped) : Gives (fun _ => True) settings.validate := by
  obtain ⟨hasRepository, hrepository⟩ := exists_hasRepository h
  obtain ⟨hasLimit, hlimit⟩ := exists_hasLimit h
  rw [validate, hrepository, hlimit]
  cases hasRepository with
  | false => rfl
  | true =>
  cases hasLimit with
  | false => rfl
  | true =>
  have hspan := h.span
  rcases heq : settings.span with _ | ⟨start, _ | ⟨stop, _ | _⟩⟩
  case cons.cons.nil =>
    rw [heq, List.all_cons, List.all_cons, Bool.and_eq_true_iff, Bool.and_eq_true_iff] at hspan
    obtain ⟨isSpan, hisSpan⟩ := exists_isSpan hspan.1 hspan.2.1
    change Gives _ ((Settings.isSpan start stop).mapError .misuse >>= _)
    rw [hisSpan]
    cases isSpan with
    | false => rfl
    | true =>
      change Gives _ (if !settings.suffix.isTrue then throw .emptySuffix else pure ())
      split
      next => rfl
      next => trivial
  all_goals rfl

/-! Files of settings -/

/--
Files of settings that can be made use of, or that are no such files. They are not nested too
deeply, and their values are of the right kinds.
-/
def IsMeantFile (path : String) (content : Except FileFault ByteArray) : Prop :=
  Gives AreMeant (readValues path content)

theorem isSome_lookup {name : String} {value : Json} (h : (.ofText name, value) ∈ values)
    : (Json.lookup name values).isSome := by
  rw [Json.lookup, Option.isSome_map, List.find?_isSome]
  exact ⟨_, List.mem_reverse.2 h, decide_eq_true rfl⟩

theorem gives_ofFile (environment : Json) {path : String} {content : Except FileFault ByteArray}
    (hfile : IsMeantFile path content) (h : AreMeant values) (hknown : ∀ x ∈ values, isName x.1)
    {repository : Text.Loose} (hrepository : (.ofText "repo", .text repository) ∈ values)
    : Gives (·.1.IsTyped) (ofFile environment path content values) := by
  rw [ofFile]
  apply hfile.bind
  intro members hmembers
  apply Gives.bind (gives_ofValues environment ?_ ?_ ?_)
  . intro settings hsettings
    exact hsettings
  . intro x hx
    rcases List.mem_append.1 hx with hx | hx
    . exact hmembers x (List.mem_filter.1 hx).1
    . exact h x (List.mem_filter.1 hx).1
  . intro x hx
    rcases List.mem_append.1 hx with hx | hx
    . exact (List.mem_filter.1 hx).2
    . exact hknown x (List.mem_filter.1 hx).1
  . exact isSome_lookup (List.mem_append_right _ (List.mem_filter.2 ⟨hrepository, rfl⟩))

end Settings
end MethodHistory
