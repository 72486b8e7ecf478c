import MethodHistory.Proofs.Firsts
import MethodHistory.Proofs.Json.Reading
import MethodHistory.Sink

/-!
This module contains what the file of a sink holds in the end: the lines that it held before, and
one line for each of the first distinct records, as far as the limit goes. A line is read as the
record that it was written for.
-/

namespace MethodHistory

/-! Records that are taken -/

namespace Record

def named (record : Record) : Identity :=
  ⟨record.event.method, record.commit.id, record.project⟩

/--
Whether the project of a record has a text for its name, in which no half stands alone.
-/
def HasText (record : Record) : Prop :=
  ∃ name : String, record.project = .text name

variable {record : Record}

theorem identity_eq_named (h : record.HasText) : record.identity = record.named := by
  obtain ⟨name, hname⟩ := h
  rw [identity, named, hname]
  rfl

theorem isPlain_of_mem_fields (h : record.HasText)
    : ∀ field ∈ record.fields, Json.IsPlain field.2 := by
  have htext (text : String) : Json.IsPlain (.text text) := .text text
  have hoptional (text : Option String) : Json.IsPlain (.ofText? text) := by
    cases text with
    | none => exact .null
    | some text => exact .text text
  have hproject : Json.IsPlain record.project.toJson := by
    obtain ⟨name, hname⟩ := h
    rw [hname]
    exact .text name
  simp only [fields, List.forall_mem_cons, htext, hoptional, hproject, true_and]
  exact List.forall_mem_nil _

def toJson (record : Record) : Json :=
  .ofFields record.fields

theorem nodup_names (record : Record) : (record.fields.map Prod.fst).Nodup := by
  have hnames : record.fields.map Prod.fst
      = ["key", "project", "method", "class", "file", "change_type", "entity_type", "before",
        "after", "commit_id", "author", "author_email", "date", "message", "date_min",
        "date_max"] := rfl
  rw [hnames]
  decide

theorem isPrintable_toJson (h : record.HasText)
    : ∀ c ∈ record.toJson.write, Json.IsPrintable c :=
  Json.isPrintable_write_ofFields (isPlain_of_mem_fields h)

theorem read_toJson (h : record.HasText) : Json.read record.toJson.write = .ok record.toJson :=
  Json.read_write_ofFields (isPlain_of_mem_fields h) record.nodup_names

end Record

def Fits (limit : Option Int) (count : Nat) : Prop :=
  ∀ amount ∈ limit, count < amount

@[simp]
theorem fits_none (count : Nat) : Fits none count := by
  intro amount hamount
  cases hamount

@[simp]
theorem fits_some {amount : Int} {count : Nat} : Fits (some amount) count ↔ count < amount := by
  constructor
  . exact fun h => h amount rfl
  . rintro h amount ⟨⟩
    exact h

def taken (limit : Option Int) (records : List Record) : List Record :=
  match limit with
  | none => firsts Record.named records
  | some amount => (firsts Record.named records).take amount.toNat

variable {limit : Option Int} {records : List Record} {record : Record}

theorem taken_eq_firsts (h : Fits limit (taken limit records).length)
    : taken limit records = firsts Record.named records := by
  cases limit with
  | none => rfl
  | some amount =>
    rw [fits_some, taken, List.length_take] at h
    exact List.take_of_length_le (by omega)

theorem taken_isPrefix (limit : Option Int) (records : List Record)
    : taken limit records <+: firsts Record.named records := by
  cases limit with
  | none => apply List.prefix_refl
  | some amount => apply List.take_prefix

theorem taken_sublist (limit : Option Int) (records : List Record)
    : (taken limit records).Sublist records :=
  (taken_isPrefix limit records).sublist.trans (firsts_sublist Record.named records)

theorem isNew_and_fits_iff
    : record.named ∉ (taken limit records).map Record.named
        ∧ Fits limit (taken limit records).length
      ↔ record.named ∉ records.map Record.named
        ∧ Fits limit (firsts Record.named records).length := by
  constructor
  . rintro ⟨hnew, hfits⟩
    have heq := taken_eq_firsts hfits
    rw [heq] at hnew hfits
    exact ⟨mt mem_map_firsts.2 hnew, hfits⟩
  . rintro ⟨hnew, hfits⟩
    have hlength := (taken_isPrefix limit records).length_le
    refine ⟨mt (fun h => ((taken_sublist limit records).map _).subset h) hnew, ?_⟩
    intro amount hamount
    have hfits := hfits amount hamount
    omega

theorem taken_append_singleton_of_new
    (hnew : record.named ∉ (taken limit records).map Record.named)
    (hfits : Fits limit (taken limit records).length)
    : taken limit (records ++ [record]) = taken limit records ++ [record] := by
  have heq := taken_eq_firsts hfits
  have hfirsts : firsts Record.named (records ++ [record]) = taken limit records ++ [record] := by
    rw [firsts_append_singleton, ← heq, if_neg hnew]
  cases limit with
  | none => exact hfirsts
  | some amount =>
    rw [fits_some] at hfits
    rw [taken, hfirsts]
    apply List.take_of_length_le
    rw [List.length_append, List.length_singleton]
    omega

theorem taken_append_singleton_of_known
    (hknown : record.named ∈ (taken limit records).map Record.named)
    : taken limit (records ++ [record]) = taken limit records := by
  have hmem := (List.Sublist.map Record.named (taken_isPrefix limit records).sublist).subset hknown
  have hfirsts := (firsts_append_singleton Record.named records record).trans (if_pos hmem)
  cases limit with
  | none => exact hfirsts
  | some amount => rw [taken, hfirsts, taken]

theorem taken_append_singleton_of_not_fits (h : ¬Fits limit (taken limit records).length)
    : taken limit (records ++ [record]) = taken limit records := by
  cases limit with
  | none => exact absurd (fits_none _) h
  | some amount =>
    have hlength : amount.toNat ≤ (firsts Record.named records).length := by
      rw [fits_some, taken, List.length_take] at h
      omega
    rw [taken, taken, firsts_append_singleton]
    split
    . rfl
    . rw [List.take_append_of_le_length hlength]

/-! Sinks that take records -/

def Limit.ofWhole? (limit : Option Int) : Option Limit :=
  limit.bind fun amount => ofJson? (.whole amount)

theorem Limit.filter_isReached_ofWhole? {limit : Option Int} {count : Nat}
    : (ofWhole? limit).filter (·.isReached count) = none ↔ Fits limit count := by
  rw [Option.filter_eq_none_iff]
  cases limit with
  | none => exact iff_of_true (fun _ h => nomatch h) (fits_none count)
  | some amount =>
    have hreached : isReached ⟨.whole amount, toString amount⟩ count ↔ amount ≤ count := by
      rw [isReached, Number.isAtMost, Number.quotient?, Number.quotient?]
      simp
    rw [fits_some]
    constructor
    . intro h
      exact Int.not_le.1 (mt hreached.2 (h _ rfl))
    . rintro h _ ⟨⟩
      exact mt hreached.1 (Int.not_le.2 h)

namespace LineSink

variable {sink : LineSink} {content : String}

def fed (sink : LineSink) (records : List Record) : LineSink :=
  records.foldl (fun sink record => (sink.insert record).2) sink

theorem fed_append_singleton (sink : LineSink) (records : List Record) (record : Record)
    : sink.fed (records ++ [record]) = ((sink.fed records).insert record).2 := by
  rw [fed, List.foldl_append]
  rfl

def Refuses (limit : Option Int) (before : List Record) (record : Record) : Prop :=
  record.named ∉ (taken limit before).map Record.named ∧ ¬Fits limit (taken limit before).length

/--
What a sink holds that was opened with a limit on some content and was offered some records.
-/
structure HasTaken (sink : LineSink) (limit : Option Int) (content : String)
    (records : List Record) : Prop where
  limit_eq : sink.limit = Limit.ofWhole? limit
  content_eq : sink.content = content ++ String.join ((taken limit records).map line)
  written_eq : sink.written = (taken limit records).length
  seen_eq : sink.seen = (taken limit records).map Record.named
  limitReported_iff : sink.limitReported
    ↔ ∃ before record, before ++ [record] <+: records ∧ Refuses limit before record
  warnings_eq : sink.warnings
    = if sink.limitReported then sink.limit.toList.map Limit.warning else []

theorem hasTaken_open (limit : Option Int) (content : String)
    : («open» (Limit.ofWhole? limit) content).HasTaken limit content [] := by
  have htaken : taken limit [] = [] := by
    cases limit with
    | none => rfl
    | some amount => exact List.take_nil
  constructor
  . rfl
  . rw [htaken]
    exact String.append_empty.symm
  . rw [htaken]
    rfl
  . rw [htaken]
    rfl
  . simp [«open»]
  . rfl

namespace HasTaken

theorem reached?_eq_none_iff (h : sink.HasTaken limit content records)
    : sink.reached? = none ↔ Fits limit (taken limit records).length := by
  rw [reached?, h.limit_eq, h.written_eq, Limit.filter_isReached_ofWhole?]

theorem contains_seen_iff (h : sink.HasTaken limit content records) (hrecord : record.HasText)
    : sink.seen.contains record.identity
        ↔
      record.named ∈ (taken limit records).map Record.named := by
  rw [h.seen_eq, Record.identity_eq_named hrecord, List.contains_iff_mem]

theorem exists_refused_append_singleton (limit : Option Int) (records : List Record)
    (record : Record)
    : (∃ before other, before ++ [other] <+: records ++ [record] ∧ Refuses limit before other)
        ↔
      (∃ before other, before ++ [other] <+: records ∧ Refuses limit before other)
        ∨ Refuses limit records record := by
  simp only [List.prefix_concat_iff, List.append_singleton_inj]
  constructor
  . rintro ⟨before, other, ⟨rfl, rfl⟩ | hbefore, hrefused⟩
    . exact .inr hrefused
    . exact .inl ⟨before, other, hbefore, hrefused⟩
  . rintro (⟨before, other, hbefore, hrefused⟩ | hrefused)
    . exact ⟨before, other, .inr hbefore, hrefused⟩
    . exact ⟨records, record, .inl ⟨rfl, rfl⟩, hrefused⟩

theorem of_known (h : sink.HasTaken limit content records)
    (hknown : record.named ∈ (taken limit records).map Record.named)
    : sink.HasTaken limit content (records ++ [record]) := by
  have htaken := taken_append_singleton_of_known hknown
  constructor
  . exact h.limit_eq
  . rw [htaken, h.content_eq]
  . rw [htaken, h.written_eq]
  . rw [htaken, h.seen_eq]
  . rw [exists_refused_append_singleton, ← h.limitReported_iff]
    simp [Refuses, hknown]
  . exact h.warnings_eq

theorem of_refused (h : sink.HasTaken limit content records)
    (hrefused : Refuses limit records record) {reached : Limit}
    (hreached : sink.reached? = some reached)
    : (sink.refuse reached).HasTaken limit content (records ++ [record]) := by
  have htaken := @taken_append_singleton_of_not_fits _ _ record hrefused.2
  have hlimit : sink.limit = some reached := (Option.filter_eq_some_iff.1 hreached).1
  have hexists := (exists_refused_append_singleton limit records record).2 (.inr hrefused)
  rw [refuse]
  split
  next hfirst =>
    rw [Bool.not_eq_true'] at hfirst
    constructor
    . exact h.limit_eq
    . rw [htaken, h.content_eq]
    . rw [htaken, h.written_eq]
    . rw [htaken, h.seen_eq]
    . exact iff_of_true rfl hexists
    . change sink.warnings ++ [reached.warning] = sink.limit.toList.map Limit.warning
      rw [h.warnings_eq, hfirst, hlimit]
      rfl
  next hlater =>
    constructor
    . exact h.limit_eq
    . rw [htaken, h.content_eq]
    . rw [htaken, h.written_eq]
    . rw [htaken, h.seen_eq]
    . exact iff_of_true (by simpa using hlater) hexists
    . exact h.warnings_eq

theorem of_new (h : sink.HasTaken limit content records) (hrecord : record.HasText)
    (hnew : record.named ∉ (taken limit records).map Record.named)
    (hfits : Fits limit (taken limit records).length)
    : (sink.write record).HasTaken limit content (records ++ [record]) := by
  have htaken := taken_append_singleton_of_new hnew hfits
  constructor
  . exact h.limit_eq
  . rw [htaken, write, h.content_eq, List.map_append, String.join_append, List.map_singleton,
      String.join_cons, String.join_nil, String.append_empty, String.append_assoc]
  . rw [htaken, write, h.written_eq, List.length_append, List.length_singleton]
  . rw [htaken, write, h.seen_eq, List.map_append, List.map_singleton,
      Record.identity_eq_named hrecord]
  . rw [exists_refused_append_singleton, ← h.limitReported_iff]
    simp [Refuses, hfits, write]
  . exact h.warnings_eq

theorem insert (h : sink.HasTaken limit content records) (hrecord : record.HasText)
    : ((sink.insert record).1
        ↔ record.named ∉ (taken limit records).map Record.named
          ∧ Fits limit (taken limit records).length)
      ∧ (sink.insert record).2.HasTaken limit content (records ++ [record]) := by
  have hcontains := h.contains_seen_iff hrecord
  rw [LineSink.insert]
  split
  next hseen =>
    have hknown := hcontains.1 hseen
    exact ⟨by simp [hknown], h.of_known hknown⟩
  next hunseen =>
    have hnew := mt hcontains.2 hunseen
    split
    next reached hreached =>
      have hfits : ¬Fits limit (taken limit records).length := by
        rw [← h.reached?_eq_none_iff, hreached]
        exact Option.some_ne_none _
      exact ⟨by simp [hfits], h.of_refused ⟨hnew, hfits⟩ hreached⟩
    next hroom =>
      have hfits := h.reached?_eq_none_iff.1 hroom
      exact ⟨iff_of_true rfl ⟨hnew, hfits⟩, h.of_new hrecord hnew hfits⟩

end HasTaken

def after (limit : Option Int) (content : String) (records : List Record) : LineSink :=
  («open» (Limit.ofWhole? limit) content).fed records

theorem hasTaken_after (limit : Option Int) (content : String)
    (hrecords : ∀ record ∈ records, record.HasText)
    : (after limit content records).HasTaken limit content records := by
  induction records using List.reverseRecOn with
  | nil => apply hasTaken_open
  | append_singleton records record ih =>
    rw [List.forall_mem_append, List.forall_mem_singleton] at hrecords
    rw [after, fed_append_singleton]
    exact ((ih hrecords.1).insert hrecords.2).2

/-! Lines of files -/

def IsTerminated (text : String) : Prop :=
  text = "" ∨ ∃ front, text = front ++ "\n"

def linesOf (text : String) : List (List Char) :=
  (text.toList.splitOn '\n').dropLast

theorem splitOn_append {text : String} (h : IsTerminated text) (rest : List Char)
    : (text.toList ++ rest).splitOn '\n' = linesOf text ++ rest.splitOn '\n' := by
  obtain rfl | ⟨front, rfl⟩ := h
  . rfl
  . have hsplit (rest : List Char) : ((front ++ "\n").toList ++ rest).splitOn '\n'
        = front.toList.splitOn '\n' ++ rest.splitOn '\n' := by
      rw [String.toList_append, List.append_assoc]
      exact List.splitOnP_append_cons _ _ (beq_self_eq_true '\n')
    have hall := hsplit []
    rw [List.append_nil, List.splitOn_nil] at hall
    rw [hsplit, linesOf, hall, List.dropLast_concat]

theorem linesOf_append_line {text : String} (h : IsTerminated text) {cs : List Char}
    (hline : '\n' ∉ cs)
    : linesOf (text ++ .ofList (cs ++ ['\n'])) = linesOf text ++ [cs] := by
  have hsplit : (cs ++ ['\n']).splitOn '\n' = [cs, []] := by
    have hne : ∀ c ∈ cs, (c == '\n') = false := by
      intro c hc
      rw [beq_eq_false_iff_ne]
      rintro rfl
      exact hline hc
    exact List.splitOnP_append_cons_of_forall_mem hne _ rfl []
  rw [linesOf, String.toList_append, String.toList_ofList, splitOn_append h, hsplit,
    List.dropLast_append_of_ne_nil (by simp)]
  rfl

theorem isTerminated_append_line (text : String) (cs : List Char)
    : IsTerminated (text ++ .ofList (cs ++ ['\n'])) := by
  refine .inr ⟨text ++ .ofList cs, ?_⟩
  rw [String.ofList_append, String.append_assoc]

theorem linesOf_append_records {text : String} (h : IsTerminated text)
    (hrecords : ∀ record ∈ records, record.HasText)
    : IsTerminated (text ++ String.join (records.map line))
      ∧ linesOf (text ++ String.join (records.map line))
        = linesOf text ++ records.map fun record => record.toJson.write := by
  induction records generalizing text with
  | nil =>
    rw [List.map_nil, String.join_nil, String.append_empty]
    exact ⟨h, (List.append_nil _).symm⟩
  | cons record records ih =>
    rw [List.forall_mem_cons] at hrecords
    have hline : '\n' ∉ record.toJson.write := by
      intro hmem
      exact absurd (Record.isPrintable_toJson hrecords.1 _ hmem) (by decide)
    obtain ⟨hterminated, hlines⟩ := ih (isTerminated_append_line text _) hrecords.2
    rw [linesOf_append_line h hline] at hlines
    rw [List.map_cons, String.join_cons, ← String.append_assoc]
    refine ⟨hterminated, hlines.trans ?_⟩
    rw [List.append_assoc, List.singleton_append, List.map_cons]

/-! What is written -/

def HasRefused (limit : Option Int) (content : String) (records : List Record) : Prop :=
  ∃ before record, before ++ [record] <+: records
    ∧ record.named ∉ (taken limit before).map Record.named
    ∧ ((after limit content before).insert record).1 = false

/--
What a sink does that is opened with a limit on some content and offered some records.
-/
structure Writes (limit : Option Int) (content : String) (records : List Record) : Prop where
  nodup : ((taken limit records).map Record.named).Nodup
  content_eq : (after limit content records).content
    = content ++ String.join ((taken limit records).map line)
  linesOf_eq : linesOf (after limit content records).content
    = linesOf content ++ (taken limit records).map fun record => record.toJson.write
  isTerminated : IsTerminated (after limit content records).content
  isPrintable : ∀ record ∈ taken limit records, ∀ c ∈ record.toJson.write, Json.IsPrintable c
  read_eq : ∀ record ∈ taken limit records, Json.read record.toJson.write = .ok record.toJson
  insert_iff : ∀ before record, before ++ [record] <+: records →
    (((after limit content before).insert record).1
      ↔ record.named ∉ before.map Record.named
        ∧ Fits limit (firsts Record.named before).length)
  written_eq : (after limit content records).written = (taken limit records).length
  written_le : ∀ amount ∈ limit, ((after limit content records).written : Int) ≤ max amount 0
  warnings_of_refused : ∀ amount ∈ limit, HasRefused limit content records →
    (after limit content records).warnings
      = ["Record limit of " ++ toString amount ++ " reached, further records are not written"]
  warnings_of_not_refused : ¬HasRefused limit content records →
    (after limit content records).warnings = []

theorem insert_iff (limit : Option Int) (content : String)
    (hrecords : ∀ record ∈ records, record.HasText) {before : List Record}
    (hbefore : before ++ [record] <+: records)
    : ((after limit content before).insert record).1
        ↔
      record.named ∉ (taken limit before).map Record.named
        ∧ Fits limit (taken limit before).length := by
  have hseen : ∀ other ∈ before ++ [record], other.HasText := by
    intro other hother
    exact hrecords other (hbefore.subset hother)
  rw [List.forall_mem_append, List.forall_mem_singleton] at hseen
  exact ((hasTaken_after limit content hseen.1).insert hseen.2).1

theorem hasRefused_iff (content : String) (hrecords : ∀ record ∈ records, record.HasText)
    : HasRefused limit content records
        ↔
      ∃ before record, before ++ [record] <+: records ∧ Refuses limit before record := by
  constructor
  . rintro ⟨before, record, hbefore, hnew, hrefused⟩
    refine ⟨before, record, hbefore, hnew, ?_⟩
    intro hfits
    rw [(insert_iff limit content hrecords hbefore).2 ⟨hnew, hfits⟩] at hrefused
    cases hrefused
  . rintro ⟨before, record, hbefore, hnew, hfits⟩
    refine ⟨before, record, hbefore, hnew, ?_⟩
    rw [← Bool.not_eq_true, insert_iff limit content hrecords hbefore]
    exact fun h => hfits h.2

theorem HasTaken.warnings_eq_of_refused {amount : Int}
    (h : sink.HasTaken (some amount) content records)
    (hexists : ∃ before record, before ++ [record] <+: records
      ∧ Refuses (some amount) before record)
    : sink.warnings
        =
      ["Record limit of " ++ toString amount ++ " reached, further records are not written"] := by
  rw [h.warnings_eq, if_pos (h.limitReported_iff.2 hexists), h.limit_eq]
  rfl

theorem HasTaken.warnings_eq_nil (h : sink.HasTaken limit content records)
    (hnone : ¬∃ before record, before ++ [record] <+: records ∧ Refuses limit before record)
    : sink.warnings = [] := by
  rw [h.warnings_eq, if_neg (mt h.limitReported_iff.1 hnone)]

theorem writes (limit : Option Int) {content : String} (hcontent : IsTerminated content)
    (hrecords : ∀ record ∈ records, record.HasText) : Writes limit content records := by
  have hafter := hasTaken_after limit content hrecords
  have htexts : ∀ record ∈ taken limit records, record.HasText := by
    intro record hrecord
    exact hrecords record ((taken_sublist limit records).subset hrecord)
  obtain ⟨hterminated, hlines⟩ := linesOf_append_records hcontent htexts
  rw [← hafter.content_eq] at hterminated hlines
  constructor
  . exact ((taken_isPrefix limit records).sublist.map _).nodup (nodup_map_firsts _ _)
  . exact hafter.content_eq
  . exact hlines
  . exact hterminated
  . intro record hrecord
    exact Record.isPrintable_toJson (htexts record hrecord)
  . intro record hrecord
    exact Record.read_toJson (htexts record hrecord)
  . intro before record hbefore
    exact (insert_iff limit content hrecords hbefore).trans isNew_and_fits_iff
  . exact hafter.written_eq
  . rintro amount hamount
    cases hamount
    rw [hafter.written_eq, taken, List.length_take]
    omega
  . intro amount hamount hrefused
    cases hamount
    rw [hasRefused_iff content hrecords] at hrefused
    exact hafter.warnings_eq_of_refused hrefused
  . rw [hasRefused_iff content hrecords]
    exact hafter.warnings_eq_nil

/--
On content that is empty or ends with a line, one line is written for each of the first distinct
records, as many as the limit allows for: printable ASCII that is read as the record. A sink that is
opened on the file afterwards writes behind these lines and knows of none of their records.
-/
theorem file_holds_first_distinct_records (limit : Option Int) {content : String}
    (hcontent : IsTerminated content) (hrecords : ∀ record ∈ records, record.HasText)
    : Writes limit content records
      ∧ ∀ limit' others, (∀ record ∈ others, record.HasText) →
        Writes limit' (after limit content records).content others := by
  have hwrites := writes limit hcontent hrecords
  refine ⟨hwrites, ?_⟩
  intro limit' others hothers
  exact writes limit' hwrites.isTerminated hothers

end LineSink

/-! Two changes of one method, and one of another method beyond the limit -/

namespace Sample

def changed (method after : String) : Record where
  event := ⟨.statementUpdate, method, "A.java", none, "STATEMENT", "", after⟩
  commit := ⟨"cafe", "", "", .first, ""⟩
  project := .text "project"
  dateMin := .first
  dateMax := .last

def changes : List Record :=
  [changed "A.a" "\"\\\n\x00\u20ac\uffff😀", changed "A.a" "", changed "A.b" ""]

theorem hasText_of_mem_changes : ∀ record ∈ changes, record.HasText := by
  rw [changes, List.forall_mem_cons, List.forall_mem_cons, List.forall_mem_singleton]
  exact ⟨⟨_, rfl⟩, ⟨_, rfl⟩, ⟨_, rfl⟩⟩

end Sample

theorem change_beyond_limit_is_refused
    : (LineSink.after (some 1) "[]\n" Sample.changes).content
        = "[]\n" ++ LineSink.line Sample.changes[0]
      ∧ Json.read Sample.changes[0].toJson.write = .ok Sample.changes[0].toJson
      ∧ (LineSink.after (some 1) "[]\n" Sample.changes).warnings
        = ["Record limit of 1 reached, further records are not written"] := by
  have hterminated : LineSink.IsTerminated "[]\n" := .inr ⟨"[]", rfl⟩
  have htaken : taken (some 1) Sample.changes = [Sample.changes[0]] := by
    decide +kernel
  have hrefused : LineSink.HasRefused (some 1) "[]\n" Sample.changes :=
    ⟨Sample.changes.take 2, Sample.changes[2], List.prefix_refl _, by decide +kernel,
      by decide +kernel⟩
  obtain ⟨hwrites, -⟩ := LineSink.file_holds_first_distinct_records (some 1) hterminated
    Sample.hasText_of_mem_changes
  refine ⟨?_, ?_, hwrites.warnings_of_refused 1 rfl hrefused⟩
  . rw [hwrites.content_eq, htaken, List.map_singleton, String.join_cons, String.join_nil,
      String.append_empty]
  . apply hwrites.read_eq
    rw [htaken]
    exact List.mem_singleton_self _

end MethodHistory
