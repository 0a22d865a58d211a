import Mathlib.Data.List.DropRight
import VpnClient.Lib.OrderedMap

/-!
# The settings writer of the Android app

`SettingsWriter` of `org.perfectprivacy.android.utils`: the app collects the
options of a connection under dotted keys (`connection.type`, `global.crl`) and
serializes them in the format of libstrongswan's settings parser, which the native
side then loads with `settings_create_string`.

A section holds two `LinkedHashMap`s, its settings and its sub-sections, both in the
order of first `put` (`VpnClient.Lib.OrderedMap`). `setValue` splits the key at its
dots, walks the sections of all but the last part, creating those that are missing,
and puts the value under the last part; Java changes the section objects in place,
and `SettingsSection.update` rebuilds the path instead. A key made only of dots
splits into nothing, and `Arrays.copyOfRange(keys, 0, -1)` then throws.

What the writer is for is a map from key paths to the last value set for them:
`get_update` says that one `update` changes exactly the entry at its path, and
`setValues_spec` that a run of calls throws only on a key made of dots and otherwise
leaves each path holding the value of the last call that set it. Every section the writer builds has distinct setting keys and
section names (`WellFormed`), which is what a reader of the serialized text relies
on.
-/

namespace VpnClient.Settings

open VpnClient.Lib OrderedMap

/-- `SettingsWriter.SettingsSection`: the settings of a section and its
sub-sections, by name. A `null` value is `none`. -/
inductive SettingsSection where
  | mk (settings : List (List Char × Option (List Char))) (sections : List (List Char × SettingsSection))

namespace SettingsSection

/-- `Settings`. -/
def settings : SettingsSection → List (List Char × Option (List Char))
  | mk settings _ => settings

/-- `Sections`. -/
def sections : SettingsSection → List (List Char × SettingsSection)
  | mk _ sections => sections

@[simp] theorem settings_mk (s : List (List Char × Option (List Char))) (t : List (List Char × SettingsSection)) :
    (mk s t).settings = s := rfl

@[simp] theorem sections_mk (s : List (List Char × Option (List Char))) (t : List (List Char × SettingsSection)) :
    (mk s t).sections = t := rfl

/-- `new SettingsSection()`. -/
def empty : SettingsSection := mk [] []

/-- `findOrCreateSection(path)`, then `Settings.put(key, value)` on the section it
returns: each section on the path is looked up in its parent and created, at the end
of the parent's sections, where missing. -/
def update : SettingsSection → List (List Char) → List Char → Option (List Char) → SettingsSection
  | mk settings sections, [], key, value => mk (put settings key value) sections
  | mk settings sections, name :: path, key, value =>
    mk settings (put sections name (((sections.lookup name).getD empty).update path key value))

/-! ## Reading a section by key path -/

/-- The section at a path of section names. -/
def find : SettingsSection → List (List Char) → Option SettingsSection
  | s, [] => some s
  | s, name :: path => (s.sections.lookup name).bind fun sub => sub.find path

/-- The value at a key path: `none` if no setting is there, `some none` for a `null`
value. -/
def get (s : SettingsSection) (path : List (List Char)) (key : List Char) : Option (Option (List Char)) :=
  (s.find path).bind fun sub => sub.settings.lookup key

@[simp] theorem get_nil (s : SettingsSection) (key : List Char) : s.get [] key = s.settings.lookup key := rfl

theorem get_cons (s : SettingsSection) (name : List Char) (path : List (List Char)) (key : List Char) :
    s.get (name :: path) key = (s.sections.lookup name).bind fun sub => sub.get path key := by
  simp only [get, find]
  cases s.sections.lookup name <;> rfl

@[simp] theorem get_empty (path : List (List Char)) (key : List Char) : empty.get path key = none := by
  cases path <;> rfl

/-- A missing section reads as an empty one. -/
theorem get_lookup_getD (sections : List (List Char × SettingsSection)) (name : List Char)
    (path : List (List Char)) (key : List Char) :
    ((sections.lookup name).getD empty).get path key = (sections.lookup name).bind fun sub => sub.get path key := by
  cases sections.lookup name <;> simp

/-- **One update changes exactly the value at its path.** -/
theorem get_update (s : SettingsSection) (path : List (List Char)) (key : List Char) (value : Option (List Char))
    (path' : List (List Char)) (key' : List Char) :
    (s.update path key value).get path' key' =
      if path' = path ∧ key' = key then some value else s.get path' key' := by
  induction path generalizing s path' with
  | nil =>
    obtain ⟨settings, sections⟩ := s
    cases path' with
    | nil => simp [update, lookup_put]
    | cons name' path' => simp [update, get_cons]
  | cons name path ih =>
    obtain ⟨settings, sections⟩ := s
    cases path' with
    | nil => simp [update]
    | cons name' path' =>
      simp only [update, get_cons, sections_mk, lookup_put, List.cons.injEq]
      by_cases hn : name' = name
      · -- the path goes through the updated section
        subst hn
        simp [ih, get_lookup_getD]
      · simp [hn]

/-! ## Distinct keys -/

mutual
/-- Every section of the tree has distinct setting keys and section names. -/
def WellFormed : SettingsSection → Prop
  | mk settings sections => (keys settings).Nodup ∧ (keys sections).Nodup ∧ SectionsWellFormed sections

/-- `WellFormed` for each section of a list. -/
def SectionsWellFormed : List (List Char × SettingsSection) → Prop
  | [] => True
  | (_, s) :: rest => WellFormed s ∧ SectionsWellFormed rest
end

theorem wellFormed_empty : empty.WellFormed := by
  simp [empty, WellFormed, SectionsWellFormed]

theorem SectionsWellFormed.lookup {sections : List (List Char × SettingsSection)} (h : SectionsWellFormed sections)
    (name : List Char) : ((sections.lookup name).getD empty).WellFormed := by
  induction sections with
  | nil => exact wellFormed_empty
  | cons p sections ih =>
    obtain ⟨name', s⟩ := p
    obtain ⟨hs, hrest⟩ := h
    by_cases hn : name = name'
    · subst hn
      simpa using hs
    · have hb : (name == name') = false := beq_eq_false_iff_ne.mpr hn
      simpa only [List.lookup_cons, hb] using ih hrest

theorem SectionsWellFormed.put {sections : List (List Char × SettingsSection)} (h : SectionsWellFormed sections)
    (name : List Char) {s : SettingsSection} (hs : s.WellFormed) : SectionsWellFormed (OrderedMap.put sections name s) := by
  induction sections with
  | nil => exact ⟨hs, trivial⟩
  | cons p sections ih =>
    obtain ⟨name', s'⟩ := p
    obtain ⟨hs', hrest⟩ := h
    by_cases hn : name' = name
    · subst hn
      rw [put_cons_self]
      exact ⟨hs, hrest⟩
    · rw [put_cons_of_ne sections s s' hn]
      exact ⟨hs', ih hrest⟩

/-- `update` keeps every section's keys distinct. -/
theorem WellFormed.update {s : SettingsSection} (h : s.WellFormed) (path : List (List Char)) (key : List Char)
    (value : Option (List Char)) : (s.update path key value).WellFormed := by
  induction path generalizing s with
  | nil =>
    obtain ⟨settings, sections⟩ := s
    obtain ⟨hk, hn, hsub⟩ := h
    exact ⟨nodup_keys_put key value hk, hn, hsub⟩
  | cons name path ih =>
    obtain ⟨settings, sections⟩ := s
    obtain ⟨hk, hn, hsub⟩ := h
    exact ⟨hk, nodup_keys_put name _ hn, hsub.put name (ih (hsub.lookup name))⟩

end SettingsSection

/-! ## The writer -/

/-- A `SettingsWriter`: its top-level section `mTop`. -/
structure SettingsWriter where
  top : SettingsSection

/-- The exception `setValue` can throw: `Arrays.copyOfRange(keys, 0, -1)` on a key
that splits into no parts. -/
inductive WriterException where
  | illegalArgument
  deriving DecidableEq, Repr

namespace SettingsWriter

/-- `new SettingsWriter()`. -/
def empty : SettingsWriter := ⟨.empty⟩

/-- The characters the key pattern `[^#{}="\n\t ]+` of `setValue` admits. -/
def keyChar (c : Char) : Bool := c ∉ ['#', '{', '}', '=', '"', '\n', '\t', ' ']

/-- `pattern.matcher(key).matches()`. -/
def keyMatches (key : List Char) : Bool := !key.isEmpty && key.all keyChar

/-- `key.split("\\.")`: the parts between the dots, without the empty parts at the
end; a key with no dot is its own only part. -/
def split (key : List Char) : List (List Char) :=
  if '.' ∈ key then (key.splitOn '.').rdropWhile List.isEmpty else [key]

/-- `setValue(String key, String value)`: a key the pattern refuses is ignored. -/
def setValue (w : SettingsWriter) (key : List Char) (value : Option (List Char)) :
    Except WriterException SettingsWriter :=
  if keyMatches key then
    match (split key).getLast? with
    | none => .error .illegalArgument
    | some last => .ok ⟨w.top.update (split key).dropLast last value⟩
  else .ok w

/-- `setValue(String key, Integer value)`. -/
def setValueInteger (w : SettingsWriter) (key : List Char) (value : Option ℤ) :
    Except WriterException SettingsWriter :=
  w.setValue key (value.map fun n => (toString n).toList)

/-- `setValue(String key, Boolean value)`. -/
def setValueBoolean (w : SettingsWriter) (key : List Char) (value : Option Bool) :
    Except WriterException SettingsWriter :=
  w.setValue key (value.map fun b => if b then ['1'] else ['0'])

/-- A run of `setValue` calls, in order. -/
def setValues (w : SettingsWriter) (calls : List (List Char × Option (List Char))) :
    Except WriterException SettingsWriter :=
  calls.foldlM (fun w call => w.setValue call.1 call.2) w

/-! ## Serializing -/

/-- `escapeValue`: `value.replace("\\", "\\\\").replace("\"", "\\\"")`. The second
replacement finds no quote the first one wrote, so both are one pass. -/
def escapeValue (value : List Char) : List Char :=
  value.flatMap fun c => if c = '\\' then ['\\', '\\'] else if c = '"' then ['\\', '"'] else [c]

/-- One line of `serializeSection`: `key=` and the quoted, escaped value unless it is
`null`. -/
def serializeSetting (setting : List Char × Option (List Char)) : List Char :=
  setting.1 ++ '=' :: (match setting.2 with
    | none => []
    | some value => '"' :: escapeValue value ++ ['"']) ++ ['\n']

mutual
/-- `serializeSection`: the settings, then each sub-section as `name {`, its
contents and `}`. -/
def serializeSection : SettingsSection → List Char
  | .mk settings sections => settings.flatMap serializeSetting ++ serializeSections sections

/-- The sub-section loop of `serializeSection`. -/
def serializeSections : List (List Char × SettingsSection) → List Char
  | [] => []
  | (name, s) :: rest => name ++ [' ', '{', '\n'] ++ serializeSection s ++ ['}', '\n'] ++ serializeSections rest
end

/-- `serialize`. -/
def serialize (w : SettingsWriter) : List Char := serializeSection w.top

/-! ## What a run of calls sets -/

/-- The key path a call sets, if the writer accepts its key: the section names and the
key of the setting. -/
def keyPath (key : List Char) : Option (List (List Char) × List Char) :=
  if keyMatches key then (split key).getLast?.map fun last => ((split key).dropLast, last) else none

/-- What the writer is for: the value of the last call that set the path `path`,
`key`, if one did. -/
def lastSet (calls : List (List Char × Option (List Char))) (path : List (List Char)) (key : List Char) :
    Option (Option (List Char)) :=
  (calls.reverse.find? fun call => keyPath call.1 = some (path, key)).map Prod.snd

theorem setValue_eq_ok {w w' : SettingsWriter} {key : List Char} {value : Option (List Char)}
    (h : w.setValue key value = .ok w') :
    (keyPath key = none ∧ w' = w) ∨
      ∃ path last, keyPath key = some (path, last) ∧ w' = ⟨w.top.update path last value⟩ := by
  unfold setValue at h
  unfold keyPath
  split_ifs at h with hk
  · cases hl : (split key).getLast? with
    | none => simp [hl] at h
    | some last =>
      simp only [hl, Except.ok.injEq] at h
      exact .inr ⟨_, last, by simp [hk], h.symm⟩
  · cases h
    exact .inl ⟨by simp [hk], rfl⟩

/-- `setValue` throws exactly on a key that passes the pattern and is made only of
dots, whatever the writer holds. -/
theorem setValue_eq_error_iff (w : SettingsWriter) (key : List Char) (value : Option (List Char))
    (e : WriterException) : w.setValue key value = .error e ↔ keyMatches key = true ∧ split key = [] := by
  cases e
  unfold setValue
  split_ifs with hk
  · cases hl : (split key).getLast? with
    | none => simp [hk, List.getLast?_eq_none_iff.mp hl]
    | some last =>
      have hne : split key ≠ [] := fun h => by simp [h] at hl
      simp [hne]
  · simp [hk]

/-- A run ending in `call` is the run of the calls before it, then `call`. -/
theorem setValues_append_singleton (w : SettingsWriter) (calls : List (List Char × Option (List Char)))
    (call : List Char × Option (List Char)) :
    w.setValues (calls ++ [call]) = w.setValues calls >>= fun w' => w'.setValue call.1 call.2 := by
  simp [setValues, List.foldlM_append]

/-- **Each path holds its last value.** After a run of calls that ends without an
exception, the value at every key path is the one the last call to set it gave, and a
path no call set holds nothing. -/
theorem setValues_get {calls : List (List Char × Option (List Char))} {w : SettingsWriter}
    (h : empty.setValues calls = .ok w) (path : List (List Char)) (key : List Char) :
    w.top.get path key = lastSet calls path key := by
  -- the run is read from its end: the writer a prefix of the calls builds holds the
  -- last values of that prefix
  induction calls using List.reverseRecOn generalizing w with
  | nil =>
    cases h
    simp [empty, lastSet]
  | append_singleton calls call ih =>
    rw [setValues_append_singleton] at h
    cases hrun : empty.setValues calls with
    | error e =>
      rw [hrun] at h
      cases h
    | ok w₀ =>
      rw [hrun] at h
      have hcall : w₀.setValue call.1 call.2 = .ok w := h
      have hlast : lastSet (calls ++ [call]) path key =
          if keyPath call.1 = some (path, key) then some call.2 else lastSet calls path key := by
        simp only [lastSet, List.reverse_append, List.reverse_cons, List.reverse_nil, List.nil_append,
          List.singleton_append, List.find?_cons]
        split_ifs with hk <;> simp [hk]
      rw [hlast]
      rcases setValue_eq_ok hcall with ⟨hnone, rfl⟩ | ⟨p, last, hsome, rfl⟩
      · simp [hnone, ih hrun]
      · rw [SettingsSection.get_update, ih hrun, hsome]
        simp only [Option.some.injEq, Prod.mk.injEq]
        by_cases hp : path = p ∧ key = last
        · simp [hp]
        · rw [if_neg hp, if_neg fun h => hp ⟨h.1.symm, h.2.symm⟩]

/-- A run of calls throws exactly when one of its keys passes the pattern and is made
only of dots. -/
theorem setValues_eq_error_iff (w : SettingsWriter) (calls : List (List Char × Option (List Char)))
    (e : WriterException) :
    w.setValues calls = .error e ↔ ∃ call ∈ calls, keyMatches call.1 = true ∧ split call.1 = [] := by
  induction calls generalizing w with
  | nil => simp [setValues, pure, Except.pure]
  | cons call calls ih =>
    rw [setValues, List.foldlM_cons]
    cases hc : w.setValue call.1 call.2 with
    | error e' =>
      have hcall := (setValue_eq_error_iff w _ _ e').mp hc
      cases e
      cases e'
      simp [hcall, bind, Except.bind]
    | ok w₁ =>
      -- the call is accepted, so only a later one can throw
      have hne : ¬ (keyMatches call.1 = true ∧ split call.1 = []) := fun h' => by
        rw [(setValue_eq_error_iff w _ _ .illegalArgument).mpr h'] at hc
        cases hc
      simpa [hne, bind, Except.bind, setValues] using ih w₁

/-- A run of calls keeps every section's keys distinct. -/
theorem wellFormed_setValues {w w' : SettingsWriter} {calls : List (List Char × Option (List Char))}
    (hw : w.top.WellFormed) (h : w.setValues calls = .ok w') : w'.top.WellFormed := by
  induction calls generalizing w with
  | nil =>
    cases h
    exact hw
  | cons call calls ih =>
    rw [setValues, List.foldlM_cons] at h
    cases hc : w.setValue call.1 call.2 with
    | error e => simp [hc, bind, Except.bind] at h
    | ok w₁ =>
      have hrest : w₁.setValues calls = .ok w' := by simpa [hc, bind, Except.bind, setValues] using h
      rcases setValue_eq_ok hc with ⟨-, rfl⟩ | ⟨path, last, -, rfl⟩
      · exact ih hw hrest
      · exact ih (hw.update path last call.2) hrest

/-- **The writer is a map from key paths to values.** A run of calls from a new writer
throws exactly when one of its keys passes the pattern and is made only of dots. When
it does not throw, every key path holds the value of the last call that set it, a path
no call set holds nothing, and every section has distinct setting keys and section
names. -/
theorem setValues_spec (calls : List (List Char × Option (List Char))) :
    (∀ e, empty.setValues calls = .error e ↔
      ∃ call ∈ calls, keyMatches call.1 = true ∧ split call.1 = []) ∧
    ∀ w, empty.setValues calls = .ok w →
      (∀ path key, w.top.get path key = lastSet calls path key) ∧ w.top.WellFormed :=
  ⟨setValues_eq_error_iff empty calls, fun _ h => ⟨setValues_get h, wellFormed_setValues SettingsSection.wellFormed_empty h⟩⟩

/-- The key `..` passes the pattern and splits into nothing, so a run with it throws;
the key `connection.type` sets the setting `type` of the section `connection`. -/
theorem setValues_spec_dots :
    empty.setValues [(['.', '.'], none)] = .error .illegalArgument ∧
      ∀ w, empty.setValues [(['a', '.', 'b'], some ['1'])] = .ok w →
        w.top.get [['a']] ['b'] = some (some ['1']) := by
  refine ⟨((setValues_spec _).1 _).mpr ⟨_, List.mem_singleton_self _, by decide, by decide⟩, fun w hw => ?_⟩
  rw [((setValues_spec _).2 w hw).1]
  decide

end SettingsWriter

end VpnClient.Settings
