/-
  XmlRpc/Proofs/Listing.lean
  ==========================
  **What the lines of a listing are.**

  A listing shows one node to a line, so nothing that a reply holds may begin a line
  of its own.  Three texts of a reply reach the listing.  The text of a scalar is
  quoted, which leaves no line feed in it (`lineFeed_not_mem_quoted`); a tag is the
  name of an element, which holds no separator; but the name of a member is shown as it
  is.

  So the listing has a line for each node, and no other, exactly if no name of a member
  holds a line feed (`lines_of_listing_iff`).  A reply can forge a line with such a name
  (`listing_of_forged`).
-/
import XmlRpc.Node.Outline
import XmlRpc.Proofs.DecodedNodes

namespace XmlRpc

/-! ### Texts without a line feed -/

theorem lineFeed_not_mem_toDigits {base : Nat} (hbase : 1 < base) (n : Nat) :
    '\n' ∉ Nat.toDigits base n := by
  induction n using Nat.strongRecOn with
  | ind n ih =>
    have hdigit (k : Nat) : '\n' ≠ Nat.digitChar k := (Nat.digitChar_ne '\n' (by decide)).symm
    by_cases hsmall : n < base
    · rw [Nat.toDigits_of_lt_base hsmall, List.mem_singleton]
      exact hdigit n
    · have hle : base ≤ n := Nat.le_of_not_lt hsmall
      rw [Nat.toDigits_of_base_le hbase hle, List.mem_append, List.mem_singleton, not_or]
      exact ⟨ih (n / base) (Nat.div_lt_self (by omega) hbase), hdigit _⟩

theorem lineFeed_not_mem_numeral (n : Nat) : '\n' ∉ (Numeral.text n).toList := by
  rw [Numeral.text, String.toList_ofList]
  exact lineFeed_not_mem_toDigits (by decide) n

namespace Text

theorem lineFeed_not_mem_quotedChar (c : Char) : '\n' ∉ quotedChar c := by
  unfold quotedChar
  split_ifs with _ _ hfeed
  any_goals decide
  · simp [quotedNumber, lineFeed_not_mem_toDigits]
  · simpa using Ne.symm hfeed

/-- **A quoted text stands on one line.** -/
theorem lineFeed_not_mem_quoted (text : String) : '\n' ∉ (quoted text).toList := by
  intro h
  simp only [quoted, quotedChars, String.toList_ofList, List.mem_append, List.mem_cons,
    List.mem_flatMap, List.not_mem_nil, or_false] at h
  rcases h with (hquote | ⟨c, -, hc⟩) | hquote
  · exact absurd hquote (by decide)
  · exact lineFeed_not_mem_quotedChar c hc
  · exact absurd hquote (by decide)

end Text

theorem ScalarKind.lineFeed_not_mem_tag {kind : ScalarKind}
    (h : ∀ tag, kind = .unregistered tag → '\n' ∉ tag.toList) : '\n' ∉ kind.tag.toList := by
  cases kind with
  | unregistered tag => exact h tag rfl
  | _ => decide

theorem Node.lineFeed_not_mem_summary {n : Node} (h : n.Tagged fun tag => '\n' ∉ tag.toList) :
    '\n' ∉ n.summary.toList := by
  cases n with
  | scalar s =>
    have htag : '\n' ∉ s.tag.toList := ScalarKind.lineFeed_not_mem_tag h
    simp [summary, htag, Text.lineFeed_not_mem_quoted]
  | array items => simp [summary, lineFeed_not_mem_numeral]
  | struct members => simp [summary, lineFeed_not_mem_numeral]
  | params items => simp [summary, lineFeed_not_mem_numeral]

theorem Markup.ReadName.lineFeed_not_mem {name : String} (h : ReadName name) :
    '\n' ∉ name.toList := by
  intro hmem
  exact absurd (h.whole '\n' hmem) (by decide)

/-! ### Rows -/

/-- The label keeps the row on one line. -/
def Label.OneLine : Label → Prop
  | member name => '\n' ∉ name.toList
  | _ => True

theorem Label.lineFeed_not_mem_lead_iff (label : Label) :
    '\n' ∉ label.lead.toList ↔ label.OneLine := by
  cases label with
  | root => simp [lead, OneLine]
  | index position => simp [lead, OneLine, lineFeed_not_mem_numeral]
  | member name => simp [lead, OneLine]

/-- What a row shows, without the end of its line. -/
def Row.content (row : Row) : String :=
  String.ofList (List.replicate (2 * row.depth) ' ') ++ row.label.lead ++ row.node.summary

theorem Row.toList_line (row : Row) : row.line.toList = row.content.toList ++ ['\n'] := by
  rw [line, ← content, String.toList_append]
  rfl

theorem Row.indent_content (row : Row) :
    List.replicate (2 * row.depth) ' ' <+: row.content.toList := by
  simp [content, List.append_assoc]

theorem Row.lineFeed_not_mem_content_iff {row : Row}
    (h : row.node.Tagged fun tag => '\n' ∉ tag.toList) :
    '\n' ∉ row.content.toList ↔ row.label.OneLine := by
  rw [← Label.lineFeed_not_mem_lead_iff]
  simp [content, Node.lineFeed_not_mem_summary h]

namespace Node

/-- No member has a name that goes on in another line. -/
def OneLineNames : Node → Prop
  | struct members => ∀ name ∈ Members.names members, '\n' ∉ name.toList
  | _ => True

mutual

theorem length_rows (n : Node) (depth : Nat) (label : Label) :
    (n.rows depth label).length = n.size := by
  cases n with
  | scalar s => rfl
  | array items => rw [rows, size, List.length_cons, length_itemRows]
  | struct members => rw [rows, size, List.length_cons, length_memberRows]
  | params items => rw [rows, size, List.length_cons, length_itemRows]

theorem length_itemRows (items : List Node) (depth position : Nat) :
    (itemRows depth position items).length = itemsSize items := by
  cases items with
  | nil => rfl
  | cons item rest =>
    rw [itemRows, itemsSize, List.length_append, length_rows, length_itemRows]

theorem length_memberRows (members : List (String × Node)) (depth : Nat) :
    (memberRows depth members).length = membersSize members := by
  cases members with
  | nil => rfl
  | cons entry rest =>
    obtain ⟨name, child⟩ := entry
    rw [memberRows, membersSize, List.length_append, length_rows, length_memberRows]

end

mutual

/-- What holds everywhere in a node holds in every row. -/
theorem of_mem_rows {P : Node → Prop} (n : Node) (h : n.Everywhere P) (depth : Nat)
    (label : Label) : ∀ row ∈ n.rows depth label, P row.node := by
  cases n with
  | scalar s => simpa [rows, Everywhere] using h
  | array items =>
    rw [Everywhere] at h
    rw [rows, List.forall_mem_cons]
    exact ⟨h.1, of_mem_itemRows items h.2 _ _⟩
  | struct members =>
    rw [Everywhere] at h
    rw [rows, List.forall_mem_cons]
    exact ⟨h.1, of_mem_memberRows members h.2 _⟩
  | params items =>
    rw [Everywhere] at h
    rw [rows, List.forall_mem_cons]
    exact ⟨h.1, of_mem_itemRows items h.2 _ _⟩

theorem of_mem_itemRows {P : Node → Prop} (items : List Node) (h : EveryItem P items)
    (depth position : Nat) : ∀ row ∈ itemRows depth position items, P row.node := by
  cases items with
  | nil => simp [itemRows]
  | cons item rest =>
    rw [EveryItem] at h
    rw [itemRows, List.forall_mem_append]
    exact ⟨of_mem_rows item h.1 _ _, of_mem_itemRows rest h.2 _ _⟩

theorem of_mem_memberRows {P : Node → Prop} (members : List (String × Node))
    (h : EveryMember P members) (depth : Nat) :
    ∀ row ∈ memberRows depth members, P row.node := by
  cases members with
  | nil => simp [memberRows]
  | cons entry rest =>
    obtain ⟨name, child⟩ := entry
    rw [EveryMember] at h
    rw [memberRows, List.forall_mem_append]
    exact ⟨of_mem_rows child h.1 _ _, of_mem_memberRows rest h.2 _⟩

end

mutual

theorem oneLine_rows_iff (n : Node) (depth : Nat) (label : Label) :
    (∀ row ∈ n.rows depth label, row.label.OneLine) ↔
      label.OneLine ∧ n.Everywhere OneLineNames := by
  cases n with
  | scalar s => simp [rows, Everywhere, OneLineNames]
  | array items =>
    rw [rows, List.forall_mem_cons, Everywhere, oneLine_itemRows_iff]
    simp [OneLineNames]
  | struct members =>
    rw [rows, List.forall_mem_cons, Everywhere, oneLine_memberRows_iff]
    simp [OneLineNames]
  | params items =>
    rw [rows, List.forall_mem_cons, Everywhere, oneLine_itemRows_iff]
    simp [OneLineNames]

theorem oneLine_itemRows_iff (items : List Node) (depth position : Nat) :
    (∀ row ∈ itemRows depth position items, row.label.OneLine) ↔
      EveryItem OneLineNames items := by
  cases items with
  | nil => simp [itemRows, EveryItem]
  | cons item rest =>
    rw [itemRows, List.forall_mem_append, EveryItem, oneLine_rows_iff, oneLine_itemRows_iff]
    simp [Label.OneLine]

theorem oneLine_memberRows_iff (members : List (String × Node)) (depth : Nat) :
    (∀ row ∈ memberRows depth members, row.label.OneLine) ↔
      (∀ name ∈ Members.names members, '\n' ∉ name.toList) ∧
        EveryMember OneLineNames members := by
  cases members with
  | nil => simp [memberRows, EveryMember, Members.names]
  | cons entry rest =>
    obtain ⟨name, child⟩ := entry
    rw [memberRows, List.forall_mem_append, EveryMember, oneLine_rows_iff,
      oneLine_memberRows_iff]
    rw [Label.OneLine, Members.names, Members.names, List.map_cons, List.forall_mem_cons]
    exact and_and_and_comm

end

/-! ### The lines of a listing -/

theorem toList_listing (n : Node) :
    n.listing.toList = (n.outline.map (·.content.toList)).flatMap (· ++ ['\n']) := by
  rw [listing, String.toList_join, List.flatMap_map, List.flatMap_map]
  simp only [Row.toList_line]

end Node

/-- Lines that are each ended by a line feed are what is found between the line feeds. -/
theorem splitOn_ended {lines : List (List Char)} (h : ∀ line ∈ lines, '\n' ∉ line) :
    (lines.flatMap (· ++ ['\n'])).splitOn '\n' = lines ++ [[]] := by
  induction lines with
  | nil => rfl
  | cons line rest ih =>
    rw [List.forall_mem_cons] at h
    rw [List.flatMap_cons, List.append_assoc, List.singleton_append,
      List.splitOn_append_cons_self_of_not_mem h.1, ih h.2]
    rfl

/-- No line feed is left between the line feeds. -/
theorem lineFeed_not_mem_of_mem_splitOn {text piece : List Char}
    (h : piece ∈ text.splitOn '\n') : '\n' ∉ piece := by
  induction text generalizing piece with
  | nil =>
    obtain rfl : piece = [] := by simpa using h
    exact List.not_mem_nil
  | cons c text ih =>
    rw [List.splitOn_cons_eq_if_modifyHead] at h
    split at h
    · rcases List.mem_cons.1 h with rfl | hrest
      · exact List.not_mem_nil
      · exact ih hrest
    · next hc =>
      cases hpieces : text.splitOn '\n' with
      | nil =>
        rw [hpieces] at h
        cases h
      | cons first rest =>
        rw [hpieces, List.modifyHead_cons] at h
        rw [hpieces] at ih
        rcases List.mem_cons.1 h with rfl | hrest
        · rw [List.mem_cons, not_or]
          refine ⟨?_, ih List.mem_cons_self⟩
          intro heq
          exact hc (beq_iff_eq.2 heq.symm)
        · exact ih (List.mem_cons_of_mem _ hrest)

namespace Reply

open Node (OneLineNames)

/-- **The listing of a reply has one line for each of its nodes, in document order, exactly if no
    member has a name that goes on in another line.** -/
theorem lines_of_listing_iff {body : String} {n : Node} (h : decode body = .ok n) :
    (n.listing.toList.splitOn '\n' = n.outline.map (·.content.toList) ++ [[]] ∧
        n.outline.length = n.size ∧
        ∀ row ∈ n.outline, List.replicate (2 * row.depth) ' ' <+: row.content.toList) ↔
      n.Everywhere OneLineNames := by
  have htags : n.Everywhere (Node.Tagged fun tag => '\n' ∉ tag.toList) :=
    (everywhere_of_decode h).imp fun n hn => hn.2.imp fun tag htag => htag.1.lineFeed_not_mem
  have hcontent : ∀ row ∈ n.outline, '\n' ∉ row.content.toList ↔ row.label.OneLine := by
    intro row hrow
    exact Row.lineFeed_not_mem_content_iff (Node.of_mem_rows n htags 0 .root row hrow)
  constructor
  · -- a name with a line feed would leave it in a line, but lines are cut at every line feed
    rintro ⟨hlines, -, -⟩
    apply ((n.oneLine_rows_iff 0 .root).1 _).2
    intro row hrow
    have hpiece : row.content.toList ∈ n.listing.toList.splitOn '\n' := by
      rw [hlines]
      exact List.mem_append_left _ (List.mem_map_of_mem hrow)
    exact (hcontent row hrow).1 (lineFeed_not_mem_of_mem_splitOn hpiece)
  · intro hnames
    have hlabels : ∀ row ∈ n.outline, row.label.OneLine :=
      (n.oneLine_rows_iff 0 .root).2 ⟨trivial, hnames⟩
    refine ⟨?_, n.length_rows 0 .root, fun row _ => row.indent_content⟩
    rw [Node.toList_listing]
    apply splitOn_ended
    intro line hline
    obtain ⟨row, hrow, rfl⟩ := List.mem_map.1 hline
    exact (hcontent row hrow).2 (hlabels row hrow)

theorem lines_of_listing_member :
    decode (envelope "<struct><member><name>a</name><value>1&#10;</value></member></struct>") =
        .ok (.struct [("a", .string "1\n")]) ∧
      (Node.struct [("a", .string "1\n")]).listing.toList.splitOn '\n' =
        (Node.struct [("a", .string "1\n")]).outline.map (·.content.toList) ++ [[]] := by
  have hread :
      decode (envelope "<struct><member><name>a</name><value>1&#10;</value></member></struct>") =
        .ok (.struct [("a", .string "1\n")]) := by decide +kernel
  have hnames : (Node.struct [("a", .string "1\n")]).Everywhere OneLineNames := by
    simp [Node.Everywhere, Node.EveryMember, OneLineNames, Members.names, Node.string]
  exact ⟨hread, ((lines_of_listing_iff hread).2 hnames).1⟩

/-- The name of one member shows a second one: a node with two nodes is listed in three lines. -/
theorem listing_of_forged :
    decode (envelope ("<struct><member><name>a: i4 = \"1\"&#10;  b</name>" ++
        "<value>2</value></member></struct>")) =
        .ok (.struct [("a: i4 = \"1\"\n  b", .string "2")]) ∧
      (Node.struct [("a: i4 = \"1\"\n  b", .string "2")]).size = 2 ∧
      (Node.struct [("a: i4 = \"1\"\n  b", .string "2")]).listing =
        "struct (1 members)\n" ++ "  a: i4 = \"1\"\n" ++ "  b: string = \"2\"\n" := by
  decide +kernel

end Reply

end XmlRpc
