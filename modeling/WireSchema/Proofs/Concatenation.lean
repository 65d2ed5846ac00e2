import WireSchema.Proofs.Record
import WireSchema.Proofs.Relocation
import WireSchema.Proofs.Section

/-
  Schemas one below the other.

  Between items a reader remembers nothing but the items read,
  and a line feed ends every lexeme that may still be open.  So
  a text below a schema is read as it is read alone, some lines
  further down and in the section that the schema ends in.

  Main declarations:
    * `Position.down`
    * `Schema.items`
    * `Item.parse_below`
    * `Schema.parse_below`
-/

namespace WireSchema

------------------------------------------------------------
-- Lines
------------------------------------------------------------

namespace Position

/- The same place some lines further down. -/
def down
    (lines : Nat)
    (position : Position) :
    Position :=
  ⟨position.line + lines, position.column⟩

theorem next_down
    (lines : Nat)
    (position : Position)
    (c : Char) :
    (position.down lines).next c =
      (position.next c).down lines := by
  unfold next down
  split
  · simp only [Nat.add_right_comm]
  · rfl

theorem line_advance
    (position : Position)
    (cs : List Char) :
    (position.advance cs).line =
      position.line + cs.count '\n' := by
  induction cs generalizing position with
  | nil => rfl
  | cons c cs ih =>
      have hTail : position.advance (c :: cs) =
          (position.next c).advance cs :=
        rfl
      rw [hTail, ih, List.count_cons, next]
      split
      · change position.line + 1 + _ = _
        omega
      · rfl

end Position

/- How many lines down the text below another one starts. -/
def Text.height
    (text : String) :
    Nat :=
  1 + text.toList.count '\n'

theorem Position.advance_newline
    (text : String) :
    start.advance (text.toList ++ ['\n']) =
      start.down (Text.height text) := by
  rw [advance_append]
  change (⟨(start.advance text.toList).line + 1, 1⟩ :
    Position) = _
  rw [line_advance, Nat.add_assoc, Nat.add_comm _ 1]
  rfl

theorem moveAlike_down
    (lines : Nat) :
    MoveAlike (Position.down lines) id := by
  intro position other c hPlace
  rw [← Position.next_down, hPlace]
  rfl

theorem Item.relocate_id :
    Item.relocate id = id := by
  funext item
  cases item <;> rfl

theorem Unexpected.relocate_id :
    Unexpected.relocate id = id := by
  funext fault
  cases fault <;> rfl

theorem Outcome.bimap_id
    {α ε : Type}
    (outcome : Except ε α) :
    bimap id id outcome = outcome := by
  cases outcome <;> rfl

------------------------------------------------------------
-- Items
------------------------------------------------------------

/- The items of a text below items. -/
theorem Item.parse_below
    {above : String}
    {items : List Item}
    (hAbove : Item.parse above = .ok items)
    (below : String) :
    Item.parse (above ++ "\n" ++ below) =
      Outcome.bimap
        (fun others => items ++ others.map
          (relocate (Position.down (Text.height above))))
        (Unexpected.relocate
          (Position.down (Text.height above)))
        (Item.parse below) := by
  rcases run_of_parse hAbove with ⟨finish, hRun⟩
  rcases Automaton.reads_of_run hRun with ⟨hSpell, hReads⟩
  have hStart : Reader.start.relocate
      (Position.down (Text.height above)) items =
        Reader.relocate id [] ⟨items, .item⟩ := by
    simp [Reader.relocate, Reader.start, Item.relocate_id,
      Place.relocate]
  have hBelow : automaton.run Reader.start Position.start
      Position.start (above ++ "\n" ++ below).toList =
        automaton.run ⟨items, .item⟩ finish
          (Position.start.down (Text.height above))
          below.toList := by
    rw [← Position.advance_newline, ← hSpell,
      ← hReads.run_gap (List.all_eq_true.mp rfl)
        (List.cons_ne_nil _ _)
        (fun _ _ _ => .inl List.mem_cons_self), hSpell]
    simp [String.toList_append]
  have hEnd : EndAlike (Position.down (Text.height above)) id
      items
      (automaton.run Reader.start Position.start
        Position.start below.toList)
      (automaton.run ⟨items, .item⟩ finish
        (Position.start.down (Text.height above))
        below.toList) :=
    run_endAlike (moveAlike_down _) hStart (.inl rfl) rfl
      below.toList
  have hItems := hEnd.ofRun
  rw [Item.relocate_id, Unexpected.relocate_id, List.map_id_fun,
    Outcome.bimap_id, ← hBelow, ← parse_eq_ofRun,
    ← parse_eq_ofRun] at hItems
  exact hItems.symm

------------------------------------------------------------
-- Schemas
------------------------------------------------------------

/- The place that a fault is reported at. -/
def SchemaFault.position? :
    SchemaFault → Option Position
  | .malformed fault => some fault.position
  | .unknownMarker _ position => some position
  | .duplicateParam _ _ position => some position
  | .badTag _ => none

theorem SchemaFault.position?_relocate
    (move : Position → Position)
    (fault : SchemaFault) :
    (fault.relocate move).position? =
      fault.position?.map move := by
  cases fault with
  | malformed fault => cases fault <;> rfl
  | _ => rfl

theorem SchemaFault.IsReported.exists_position
    {fault : SchemaFault}
    (hFault : fault.IsReported) :
    ∃ position, fault.position? = some position := by
  rcases hFault with ⟨failure, hFailure, -⟩
  cases fault with
  | badTag fault => cases hFailure
  | _ => exact ⟨_, rfl⟩

namespace Schema

/- The items of a text, none if it cannot be read. -/
def items
    (text : String) :
    List Item :=
  match Item.parse text with
  | .ok items => items
  | .error _ => []

theorem items_of_parse
    {text : String}
    {read : List Item}
    (hParse : Item.parse text = .ok read) :
    items text = read := by
  rw [items, hParse]

/- The records below records: those before the first marker
   stand in the section that the records above end in. -/
def recordsBelow
    (above below : String)
    (records : List Record) :
    List Record :=
  (Record.restart
    (Record.sectionAfter .constructor (items above))
    (Record.unmarked (items below)) records).map
      (Record.relocate (Position.down (Text.height above)))

/- A text below a schema is read as it is read alone. -/
theorem parse_below
    {above : String}
    {source : Option String}
    {first : Schema}
    (hAbove : parse above source = .ok first)
    (below : String) :
    parse (above ++ "\n" ++ below) source =
      Outcome.bimap
        (fun second => ⟨first.records ++
          recordsBelow above below second.records, source⟩)
        (SchemaFault.relocate
          (Position.down (Text.height above)))
        (parse below source) := by
  rcases parse_eq_ok_iff.mp hAbove with
    ⟨read, hRead, hRecords, -⟩
  unfold parse
  rw [Item.parse_below hRead]
  cases hOthers : Item.parse below with
  | error fault => rfl
  | ok others =>
      have hBoth := Record.ofItemsFrom_append .constructor []
        read (others.map
          (Item.relocate (Position.down (Text.height above))))
      have hMoved := Record.ofItemsFrom_relocate
        (Position.down (Text.height above))
        (Record.sectionAfter .constructor read) [] others
      rw [List.map_nil] at hMoved
      change _ = Record.ofItems read >>= _ at hBoth
      rw [hRecords, hMoved, Record.ofItemsFrom_withKind
        (Record.sectionAfter .constructor read) .constructor]
        at hBoth
      simp only [Outcome.bimap, Record.ofItems, hBoth,
        recordsBelow, items_of_parse hRead,
        items_of_parse hOthers]
      cases Record.ofItemsFrom .constructor [] others with
      | error fault => rfl
      | ok records => rfl

/- A schema and a text with a line feed between them: the
   records of both or the fault of the text below. -/
theorem parse_append_newline
    {above : String}
    {source : Option String}
    {first : Schema}
    (hAbove : parse above source = .ok first)
    (below : String) :
    (∀ second, parse below source = .ok second →
      parse (above ++ "\n" ++ below) source =
        .ok ⟨first.records ++
          recordsBelow above below second.records, source⟩) ∧
      ∀ fault, parse below source = .error fault →
        ∃ moved position,
          parse (above ++ "\n" ++ below) source =
            .error moved ∧
          moved = fault.relocate
            (Position.down (Text.height above)) ∧
          fault.position? = some position ∧
          moved.position? = some
            ⟨position.line + Text.height above,
              position.column⟩ := by
  have hBelow := parse_below hAbove below
  constructor
  · intro second hSecond
    rw [hBelow, hSecond]
    rfl
  · intro fault hFault
    rcases (isReported_of_parse hFault).exists_position with
      ⟨position, hPosition⟩
    rw [hFault] at hBelow
    refine ⟨_, position, hBelow, rfl, hPosition, ?_⟩
    rw [SchemaFault.position?_relocate, hPosition]
    rfl

/- Below a schema that ends in a comment, in its functions: a
   schema with a marker and a text that ends too early. -/
theorem parse_append_newline_functions :
    ∃ first second fault position,
      parse "---functions---\nf#1 = X; // f" none =
        .ok first ∧
      parse "g#2 = Y;\n---types---\nh#3 = Z;" none =
        .ok second ∧
      parse "\n g#2 =" none = .error fault ∧
      parse ("---functions---\nf#1 = X; // f" ++ "\n" ++
          "g#2 = Y;\n---types---\nh#3 = Z;") none =
        .ok ⟨first.records ++ recordsBelow
          "---functions---\nf#1 = X; // f"
          "g#2 = Y;\n---types---\nh#3 = Z;"
          second.records, none⟩ ∧
      parse ("---functions---\nf#1 = X; // f" ++ "\n" ++
          "\n g#2 =") none =
        .error (fault.relocate (Position.down 2)) ∧
      fault.position? = some position := by
  have hFirst : Outcome.passes (fun _ => true)
      (parse "---functions---\nf#1 = X; // f" none) =
        true := by
    decide +kernel
  have hSecond : Outcome.passes (fun _ => true)
      (parse "g#2 = Y;\n---types---\nh#3 = Z;" none) =
        true := by
    decide +kernel
  rcases Outcome.exists_of_passes hFirst with
    ⟨first, hAbove, -⟩
  rcases Outcome.exists_of_passes hSecond with
    ⟨second, hBelow, -⟩
  have hFault : parse "\n g#2 =" none =
      .error (.malformed (.token "" ⟨2, 6⟩)) := by
    decide +kernel
  rcases (parse_append_newline hAbove "\n g#2 =").2 _ hFault
    with ⟨moved, position, hMoved, rfl, hPosition, -⟩
  exact ⟨first, second, _, position, hAbove, hBelow, hFault,
    (parse_append_newline hAbove _).1 second hBelow, hMoved,
    hPosition⟩

end Schema

end WireSchema
