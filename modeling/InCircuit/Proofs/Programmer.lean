import InCircuit.Programmer
import InCircuit.Proofs.Text

set_option autoImplicit false

/-!
# How a programmer is spelled

A programmer and its parameters can be spelled in many ways, with blanks around the name, the keys
and the values and with blank pieces between the commas. Each spelling reads as what it spells, and
nothing else does. The first separator counts, so a value may hold `=` and `:`, and a key `:`.
-/
namespace InCircuit.ProgrammerSpec

open Text

/-- A parameter without a blank at an end of its key or value, and with no character in them that
would end them. -/
structure WritableParam (p : String × String) : Prop where
  key : Trimmed p.1.toList
  value : Trimmed p.2.toList
  key_uncut : ',' ∉ p.1.toList ∧ '=' ∉ p.1.toList
  value_uncut : ',' ∉ p.2.toList

structure Writable (s : ProgrammerSpec) : Prop where
  named : s.name ≠ ""
  name : Trimmed s.name.toList
  name_uncut : ':' ∉ s.name.toList
  params : ∀ p ∈ s.params, WritableParam p

def text (s : ProgrammerSpec) : String :=
  if s.params.isEmpty then s.name
  else s.name ++ ":" ++ ",".intercalate (s.params.map fun p => p.1 ++ "=" ++ p.2)

/-- What may stand between the commas for a list of parameters. -/
inductive Pieces : List (String × String) → List (List Char) → Prop
  | nil : Pieces [] []
  | blank {params : List (String × String)} {piece : List Char} {pieces : List (List Char)}
      (blank : AllBlank piece) (rest : Pieces params pieces) : Pieces params (piece :: pieces)
  | param {p : String × String} {params : List (String × String)} {k v : List Char}
      {pieces : List (List Char)} (key : Padded p.1.toList k) (value : Padded p.2.toList v)
      (rest : Pieces params pieces) : Pieces (p :: params) ((k ++ '=' :: v) :: pieces)

inductive Spells : ProgrammerSpec → List Char → Prop
  | alone {name : String} {cs : List Char} (h : Padded name.toList cs) : Spells ⟨name, []⟩ cs
  | options {name : String} {params : List (String × String)} {cs : List Char}
      {pieces : List (List Char)} (h : Padded name.toList cs) (listed : Pieces params pieces) :
      Spells ⟨name, params⟩ (cs ++ ':' :: [','].intercalate pieces)

variable {cs : List Char} {p : String × String} {params : List (String × String)}
  {pieces : List (List Char)}

theorem spells_text (s : ProgrammerSpec) : s.Spells s.text.toList := by
  obtain ⟨name, params⟩ := s
  have name_self := padded_self name.toList
  cases params with
  | nil => exact .alone name_self
  | cons p params =>
    have listed (ps : List (String × String)) :
        Pieces ps (ps.map fun p => p.1.toList ++ '=' :: p.2.toList) := by
      induction ps with
      | nil => exact .nil
      | cons p ps ih => exact .param (padded_self _) (padded_self _) ih
    have written : (text ⟨name, p :: params⟩).toList = name.toList ++
        ':' :: [','].intercalate ((p :: params).map fun p => p.1.toList ++ '=' :: p.2.toList) := by
      change (name ++ ":" ++ ",".intercalate _).toList = _
      have pieces : String.toList ∘ (fun p : String × String => p.1 ++ "=" ++ p.2) =
          fun p => p.1.toList ++ '=' :: p.2.toList := by
        funext p
        simp
      rw [String.toList_append, String.toList_append, String.toList_intercalate, List.map_map,
        pieces, List.append_assoc]
      rfl
    rw [written]
    exact .options name_self (listed (p :: params))

/-! ## Parameters -/

theorem trimmed_eq_iff {s : String} : trimmed cs = s ↔ Trimmed s.toList ∧ Padded s.toList cs := by
  rw [← trim_eq_iff, trimmed]
  exact ⟨fun h => by rw [← h, String.toList_ofList], fun h => by rw [h, String.ofList_toList]⟩

theorem param?_eq_ok_iff : param? cs = .ok p ↔
    ('=' ∉ p.1.toList ∧ Trimmed p.1.toList ∧ Trimmed p.2.toList) ∧
      ∃ k v, Padded p.1.toList k ∧ Padded p.2.toList v ∧ cs = k ++ '=' :: v := by
  have shown : isBlank '=' = false := by decide
  constructor
  · intro read
    rcases cut_cases '=' cs with ⟨-, cut⟩ | ⟨k, v, first, rfl, cut⟩
    · rw [param?, cut] at read
      cases read
    · rw [param?, cut] at read
      obtain rfl := Except.ok.inj read
      obtain ⟨key, padded⟩ := trimmed_eq_iff.mp (rfl : trimmed k = _)
      obtain ⟨value, padded'⟩ := trimmed_eq_iff.mp (rfl : trimmed v = _)
      exact ⟨⟨mt (padded.mem_iff shown).mpr first, key, value⟩, k, v, padded, padded', rfl⟩
  · rintro ⟨⟨key_uncut, key, value⟩, k, v, padded, padded', rfl⟩
    rw [param?, cut_append (mt (padded.mem_iff shown).mp key_uncut)]
    change Except.ok (trimmed k, trimmed v) = _
    rw [trimmed_eq_iff.mpr ⟨key, padded⟩, trimmed_eq_iff.mpr ⟨value, padded'⟩]

theorem params?_cons_eq_ok_iff : params? (cs :: pieces) = .ok params ↔
    ∃ p ps, param? cs = .ok p ∧ params? pieces = .ok ps ∧ params = p :: ps := by
  rw [params?]
  cases param? cs with
  | error fault => exact iff_of_false (by rintro ⟨⟩) (by rintro ⟨_, _, ⟨⟩, _⟩)
  | ok p =>
    cases params? pieces with
    | error fault => exact iff_of_false (by rintro ⟨⟩) (by rintro ⟨_, _, _, ⟨⟩, _⟩)
    | ok ps =>
      constructor
      · intro read
        exact ⟨p, ps, rfl, rfl, (Except.ok.inj read).symm⟩
      · rintro ⟨_, _, ⟨⟩, ⟨⟩, rfl⟩
        rfl

theorem params?_filter_eq_ok_iff (cut : ∀ piece ∈ pieces, ',' ∉ piece) :
    params? (pieces.filter fun piece => ! (trim piece).isEmpty) = .ok params ↔
      (∀ p ∈ params, WritableParam p) ∧ Pieces params pieces := by
  have shown : isBlank ',' = false := by decide
  induction pieces generalizing params with
  | nil =>
    constructor
    · intro read
      obtain rfl := Except.ok.inj read
      exact ⟨List.forall_mem_nil _, .nil⟩
    · rintro ⟨-, ⟨⟩⟩
      rfl
  | cons piece pieces ih =>
    obtain ⟨closed, others⟩ := List.forall_mem_cons.mp cut
    by_cases blank : AllBlank piece
    · have dropped : (! (trim piece).isEmpty) = false := by
        rw [trim_eq_nil_iff.mpr blank]
        rfl
      rw [List.filter_cons, dropped, if_neg Bool.false_ne_true]
      refine (ih others).trans (and_congr_right fun _ => ⟨.blank blank, ?_⟩)
      rintro (_ | ⟨-, rest⟩ | ⟨-, -, -⟩)
      · exact rest
      · exact absurd (blank '=' (by simp)) (by decide)
    · have kept : (! (trim piece).isEmpty) = true := by
        rw [Bool.not_eq_true', List.isEmpty_eq_false_iff]
        exact mt trim_eq_nil_iff.mp blank
      rw [List.filter_cons, kept, if_pos rfl, params?_cons_eq_ok_iff]
      constructor
      · rintro ⟨p, ps, read, rest, rfl⟩
        obtain ⟨⟨key_uncut, key, value⟩, k, v, padded, padded', rfl⟩ := param?_eq_ok_iff.mp read
        obtain ⟨writable, listed⟩ := (ih others).mp rest
        rw [List.mem_append, List.mem_cons, padded.mem_iff shown, padded'.mem_iff shown] at closed
        refine ⟨List.forall_mem_cons.mpr ⟨⟨key, value, ⟨fun mem => closed (.inl mem), key_uncut⟩,
          fun mem => closed (.inr (.inr mem))⟩, writable⟩, .param padded padded' listed⟩
      · rintro ⟨writable, listed⟩
        cases listed with
        | blank all rest => exact absurd all blank
        | param padded padded' rest =>
          obtain ⟨first, writable⟩ := List.forall_mem_cons.mp writable
          exact ⟨_, _, param?_eq_ok_iff.mpr
            ⟨⟨first.key_uncut.2, first.key, first.value⟩, _, _, padded, padded', rfl⟩,
            (ih others).mpr ⟨writable, rest⟩, rfl⟩

theorem Pieces.not_mem (listed : Pieces params pieces) (writable : ∀ p ∈ params, WritableParam p) :
    ∀ piece ∈ pieces, ',' ∉ piece := by
  have shown : isBlank ',' = false := by decide
  induction listed with
  | nil => exact List.forall_mem_nil _
  | blank all rest ih => exact List.forall_mem_cons.mpr ⟨all.not_mem shown, ih writable⟩
  | param padded padded' rest ih =>
    obtain ⟨first, writable⟩ := List.forall_mem_cons.mp writable
    refine List.forall_mem_cons.mpr ⟨?_, ih writable⟩
    rw [List.mem_append, List.mem_cons, padded.mem_iff shown, padded'.mem_iff shown]
    rintro (key | ⟨⟨⟩⟩ | value)
    · exact first.key_uncut.1 key
    · exact first.value_uncut value

/-! ## The whole text -/

theorem Pieces.split (listed : Pieces params pieces) (writable : ∀ p ∈ params, WritableParam p) :
    Pieces params (Text.split ',' ([','].intercalate pieces)) := by
  rw [split_eq_splitOn]
  cases pieces with
  | nil => exact .blank (List.forall_mem_nil _) listed
  | cons piece pieces =>
    rwa [List.splitOn_intercalate _ (listed.not_mem writable) (List.cons_ne_nil _ _)]

theorem named_iff {name : String} : (trim cs).isEmpty = false ∧ trimmed cs = name ↔
    name ≠ "" ∧ Trimmed name.toList ∧ Padded name.toList cs := by
  rw [List.isEmpty_eq_false_iff]
  constructor
  · rintro ⟨given, rfl⟩
    refine ⟨fun empty => given ?_, trimmed_eq_iff.mp rfl⟩
    rw [← String.toList_ofList (l := trim cs)]
    exact congrArg String.toList empty
  · rintro ⟨named, spelled⟩
    have read := trimmed_eq_iff.mpr spelled
    refine ⟨fun empty => named ?_, read⟩
    rw [← read, trimmed, empty]

variable {s : ProgrammerSpec} {text : String}

theorem parse?_of_cut_none (parted : cut ':' text.toList = (cs, none)) :
    parse? text = if (trim cs).isEmpty then .error .empty else .ok ⟨trimmed cs, []⟩ := by
  rw [parse?, parted]

theorem parse?_of_cut_some {after : List Char} (parted : cut ':' text.toList = (cs, some after)) :
    parse? text = if (trim cs).isEmpty then .error .empty else do
      let params ← params? ((Text.split ',' after).filter fun piece => ! (trim piece).isEmpty)
      return ⟨trimmed cs, params⟩ := by
  rw [parse?, parted]

theorem writable_of_parse? (read : parse? text = .ok s) : s.Writable ∧ s.Spells text.toList := by
  have shown : isBlank ':' = false := by decide
  rcases cut_cases ':' text.toList with ⟨unparted, parted⟩ | ⟨before, after, first, whole, parted⟩
  · rw [parse?_of_cut_none parted] at read
    split at read
    · cases read
    · rename_i given
      obtain rfl := Except.ok.inj read
      obtain ⟨named, name, padded⟩ := named_iff.mp ⟨Bool.eq_false_iff.mpr given, rfl⟩
      exact ⟨⟨named, name, mt (padded.mem_iff shown).mpr unparted, List.forall_mem_nil _⟩,
        .alone padded⟩
  · rw [parse?_of_cut_some parted] at read
    split at read
    · cases read
    · rename_i given
      cases found : params? ((Text.split ',' after).filter fun piece => ! (trim piece).isEmpty) with
      | error fault =>
        rw [found] at read
        cases read
      | ok params =>
        rw [found] at read
        obtain rfl := Except.ok.inj read
        obtain ⟨named, name, padded⟩ := named_iff.mp ⟨Bool.eq_false_iff.mpr given, rfl⟩
        obtain ⟨writable, listed⟩ :=
          (params?_filter_eq_ok_iff fun piece => not_mem_of_mem_split).mp found
        refine ⟨⟨named, name, mt (padded.mem_iff shown).mpr first, writable⟩, ?_⟩
        have spelled := Spells.options padded listed
        rwa [split_eq_splitOn, List.intercalate_splitOn, ← whole] at spelled

theorem parse?_of_spells (writable : s.Writable) (spelled : s.Spells text.toList) :
    parse? text = .ok s := by
  have shown : isBlank ':' = false := by decide
  obtain ⟨named, name, uncut, params⟩ := writable
  generalize whole : text.toList = cs at spelled
  cases spelled with
  | alone padded =>
    obtain ⟨given, read⟩ := named_iff.mpr ⟨named, name, padded⟩
    have parted : cut ':' text.toList = (cs, none) := by
      rw [whole]
      exact cut_of_not_mem (mt (padded.mem_iff shown).mp uncut)
    rw [parse?_of_cut_none parted, if_neg (Bool.eq_false_iff.mp given), read]
  | options padded listed =>
    obtain ⟨given, read⟩ := named_iff.mpr ⟨named, name, padded⟩
    have parted := cut_append (mt (padded.mem_iff shown).mp uncut) ([','].intercalate ‹_›)
    have found := (params?_filter_eq_ok_iff fun piece => not_mem_of_mem_split).mpr
      ⟨params, listed.split params⟩
    rw [← whole] at parted
    rw [parse?_of_cut_some parted, if_neg (Bool.eq_false_iff.mp given), found, read]
    rfl

theorem parse?_eq_ok_iff : parse? text = .ok s ↔ s.Writable ∧ s.Spells text.toList :=
  ⟨writable_of_parse?, fun h => parse?_of_spells h.1 h.2⟩

/-- A programmer is read back from its text just when it can be written, and it is read from the
texts that spell it out, with whatever blanks, and from no others. -/
theorem parse?_text (s : ProgrammerSpec) :
    (parse? s.text = .ok s ↔ s.Writable) ∧
      ∀ text, parse? text = .ok s ↔ s.Writable ∧ s.Spells text.toList := by
  refine ⟨?_, fun text => parse?_eq_ok_iff⟩
  rw [parse?_eq_ok_iff]
  exact and_iff_left s.spells_text

example : parse? " dummy : part=PIC18F2550 ,, a:b = c=:d ,\t= , " =
    .ok ⟨"dummy", [("part", "PIC18F2550"), ("a:b", "c=:d"), ("", "")]⟩ := by decide

end InCircuit.ProgrammerSpec
