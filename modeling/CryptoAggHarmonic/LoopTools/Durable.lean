import CryptoAggHarmonic.Python.Files
import CryptoAggHarmonic.Python.Text

/-!
# Durable facts

`promote_episodic_to_durable` and `_mark_superseded` of `loop/loop_context.py`, on the text of `durable-facts.md`. The
short uuid and the time are drawn outside.
-/

namespace CryptoAggHarmonic.LoopTools

open PyOs

/-- `uuid.uuid4().hex[:8]` -/
structure ShortUuid where
  hex : Text
  length : hex.length = 8
  digits : ∀ c ∈ hex, c ∈ "0123456789abcdef".toList

/-- One call, with what it draws. -/
structure Promotion where
  episodicKey : Text
  durableSummary : Text
  source : Text
  content : Text
  uuid : ShortUuid
  now : Text

def supersededPrefix : Text := "- **superseded_by**: ".toList

def noneText : Text := "_none_".toList

/-- The lines of an entry before its `superseded_by` field. -/
def Promotion.heading (p : Promotion) : Text :=
  "### [".toList ++ p.uuid.hex ++ "] — ".toList ++ p.durableSummary ++ "\n- **Created**: ".toList ++ p.now ++
    "\n- **Source**: ".toList ++ p.source ++ "\n- **Content**: ".toList ++ p.content ++ "\n".toList

def Promotion.newEntry (p : Promotion) : Text := p.heading ++ supersededPrefix ++ noneText ++ "\n".toList

def marker : Text := "<!-- Entries are append-only. Format:".toList

def defaultHeader : Text :=
  "# Durable Facts — cryptoagg\n\n> Append-only log of durable project facts.\n".toList ++
    "> NEVER delete entries — mark superseded with \x60superseded_by\x60.\n\n## Entries".toList

def defaultTail : Text :=
  marker ++ "\n\n### [uuid] — \x7bfact summary\x7d\n- **Created**: \x7bdate\x7d\n".toList ++
    "- **Content**: \x7bdescription\x7d\n- **Source**: \x7bgit commit or decision reference\x7d\n".toList ++
    "- **superseded_by**: \x7buuid if applicable\x7d\n\n-->\n".toList

/-- `line.strip().startswith("- **superseded_by**: _none_")` -/
def isNoneLine (line : Text) : Bool := (supersededPrefix ++ noneText).isPrefixOf (pyStrip line)

/-- `f"**Content**: {episodic_key}" in line or episodic_key in line` -/
def names (episodicKey line : Text) : Bool :=
  decide ("**Content**: ".toList ++ episodicKey <:+: line) || decide (episodicKey <:+: line)

/-- The loop of `_mark_superseded`, from the value of `in_section` on. -/
def scanLines (episodicKey newUuid : Text) : Bool → List Text → List Text
  | _, [] => []
  | inSection, line :: lines =>
      let inSection := inSection || names episodicKey line
      if inSection && isNoneLine line then (supersededPrefix ++ newUuid) :: scanLines episodicKey newUuid false lines
      else line :: scanLines episodicKey newUuid inSection lines

/-- `_mark_superseded`, on the file; `none` where it is not there. -/
def markSuperseded (file : Option Text) (episodicKey newUuid : Text) : Option Text :=
  file.map fun text =>
    ['\n'].intercalate (scanLines episodicKey newUuid false (splitlines (universalNewlines text))) ++ ['\n']

def promoteEpisodicToDurable (file : Option Text) (p : Promotion) : Text :=
  let contentText := match markSuperseded file p.episodicKey p.uuid.hex with
    | some text => universalNewlines text
    | none => defaultHeader ++ "\n\n".toList ++ defaultTail
  match textBefore marker contentText with
  | some before =>
      let header := before.rdropWhile pyIsSpace ++ "\n\n".toList
      header ++ p.newEntry ++ "\n".toList ++ contentText.drop before.length
  | none => contentText ++ "\n".toList ++ p.newEntry

/-- The file after the calls. -/
def promoteAll (file : Option Text) (calls : List Promotion) : Option Text :=
  calls.foldl (fun file p => some (promoteEpisodicToDurable file p)) file

/-! ## What the document is to hold -/

/-- A promotion, and the promotion of the same key that came next. -/
structure Fact where
  promotion : Promotion
  supersededBy : Option ShortUuid

/-- One fact for each call, in their order. -/
def factsOf : List Promotion → List Fact
  | [] => []
  | p :: later => ⟨p, (later.find? fun q => q.episodicKey = p.episodicKey).map (·.uuid)⟩ :: factsOf later

def Fact.value (f : Fact) : Text := (f.supersededBy.map (·.hex)).getD noneText

def Fact.text (f : Fact) : Text := f.promotion.heading ++ supersededPrefix ++ f.value ++ "\n\n".toList

/-- The document without the facts. -/
structure Template where
  header : Text
  tail : Text
  header_last : ∀ c ∈ header.getLast?, pyIsSpace c = false
  tail_marker : marker <+: tail
  tail_last : tail.getLast? = some '\n'
  plain : ∀ c ∈ header ++ tail, isLineBreak c = true → c = '\n'

def Template.body (t : Template) (facts : List Fact) : Text := t.header ++ "\n\n".toList ++ facts.flatMap Fact.text

def Template.document (t : Template) (facts : List Fact) : Text := t.body facts ++ t.tail

/-- Among the facts in their order, those of the key that nothing supersedes. -/
def Fact.IsCurrent (key : Text) (f : Fact) : Prop := f.promotion.episodicKey = key ∧ f.supersededBy = none

instance (key : Text) (f : Fact) : Decidable (f.IsCurrent key) := by
  unfold Fact.IsCurrent
  haveI : Decidable (f.supersededBy = none) := decidable_of_iff (f.supersededBy.isNone) (by simp)
  infer_instance

theorem default_last : ∀ c ∈ defaultHeader.getLast?, pyIsSpace c = false := by
  have hchars : defaultHeader = _ := congrArg₂ (· ++ ·) String.toList_ofList String.toList_ofList
  have hlast : defaultHeader.getLast? = some 's' := by
    rw [hchars]
    decide +kernel
  rw [hlast]
  rintro c ⟨⟩
  rfl

theorem default_tail_last : defaultTail.getLast? = some '\n' := by
  rw [defaultTail, List.getLast?_append_of_ne_nil _ (by decide)]
  rfl

theorem plain_of_all {s : Text} (h : (s.all fun c => !isLineBreak c || c == '\n') = true) :
    ∀ c ∈ s, isLineBreak c = true → c = '\n' := by
  intro c hc hbreak
  simpa [hbreak] using List.all_eq_true.mp h c hc

theorem default_plain : ∀ c ∈ defaultHeader ++ defaultTail, isLineBreak c = true → c = '\n' := by
  have hheader : defaultHeader = _ := congrArg₂ (· ++ ·) String.toList_ofList String.toList_ofList
  have htail : defaultTail = _ := congrArg₂ (· ++ ·)
    (congrArg₂ (· ++ ·) (congrArg₂ (· ++ ·) String.toList_ofList String.toList_ofList) String.toList_ofList)
    String.toList_ofList
  refine plain_of_all ?_
  rw [hheader, htail]
  decide +kernel

theorem default_tail_marker : marker <+: defaultTail := by
  rw [defaultTail, List.append_assoc, List.append_assoc]
  exact List.prefix_append _ _

def defaultTemplate : Template where
  header := defaultHeader
  tail := defaultTail
  header_last := default_last
  tail_marker := default_tail_marker
  tail_last := default_tail_last
  plain := default_plain

/-! ## Where a scan finds them -/

/-- The lines of the document, each with whether it is the field of a current fact of the key. -/
def Template.marked (t : Template) (key : Text) (facts : List Fact) : List (Text × Bool) :=
  (splitlines (t.header ++ "\n\n".toList)).map (·, false) ++
    facts.flatMap (fun f => (splitlines f.promotion.heading).map (·, false) ++
      [(supersededPrefix ++ f.value, decide (f.IsCurrent key)), ([], false)]) ++
    (splitlines t.tail).map (·, false)

/-- Since the field before it that is none, the key stands in a line before exactly the fields that are to be set. -/
def Found (key : Text) : Bool → List (Text × Bool) → Prop
  | _, [] => True
  | seen, (line, target) :: lines =>
      if isNoneLine line then ((seen || names key line) = target) ∧ Found key false lines
      else Found key (seen || names key line) lines

instance decidableFound (key : Text) : (seen : Bool) → (lines : List (Text × Bool)) → Decidable (Found key seen lines)
  | _, [] => isTrue trivial
  | seen, (line, target) :: lines =>
      haveI := decidableFound key false lines
      haveI := decidableFound key (seen || names key line) lines
      inferInstanceAs (Decidable (if isNoneLine line then ((seen || names key line) = target) ∧ Found key false lines
        else Found key (seen || names key line) lines))

/-- What a promotion under the key needs of the document it meets. -/
structure Meets (t : Template) (facts : List Fact) (key : Text) : Prop where
  plain : ∀ c ∈ t.body facts, isLineBreak c = true → c = '\n'
  unmarked : ¬marker <:+: t.body facts
  found : Found key false (t.marked key facts)

end CryptoAggHarmonic.LoopTools
