import QueryAdmission.Admission
import QueryAdmission.Proofs.CountedFields
import QueryAdmission.Proofs.Padding
import QueryAdmission.Proofs.ParsedLiterals

/-! # How an admission step ends

In front of a document whose literals are written as the grammar has them, a step admits the
request or rejects it with one of the two codes, with three exceptions: a field that is counted
asks for a page with more digits than are read, or the operation is too deep for a limit with
more digits than are written, or the depth that is reported is no double and cannot be counted.
Then the step breaks off. -/

namespace QueryAdmission

/-- The step gave the request one of its answers: it goes on, or it is stopped with a message
and one of the two codes. -/
inductive StepEnd.Answers : StepEnd → Prop
  | admitted : Answers .admitted
  | rejected {rejection : Rejection} {text : String} (hmessage : rejection.message = .ok text)
      (hcode : rejection.extensions.lookup "code" = some (.text "QUERY_TOO_COMPLEX") ∨
        rejection.extensions.lookup "code" = some (.text "QUERY_TOO_DEEP")) :
      Answers (.rejected rejection)

/-- How a step ends that came to a decision. -/
def StepEnd.ofDecision : Decision → StepEnd
  | .allowed => .admitted
  | .rejected rejection => .rejected rejection

@[simp] theorem StepEnd.ofDecision_eq_admitted {decision : Decision} :
    ofDecision decision = .admitted ↔ decision = .allowed := by
  cases decision <;> simp [ofDecision]

@[simp] theorem StepEnd.ofDecision_eq_rejected {decision : Decision} {rejection : Rejection} :
    ofDecision decision = .rejected rejection ↔ decision = .rejected rejection := by
  cases decision <;> simp [ofDecision]

@[simp] theorem StepEnd.ofDecision_ne_failed {decision : Decision} {failure : Failure} :
    ofDecision decision ≠ .failed failure := by
  cases decision <;> simp [ofDecision]

/-- What a policy decides is an answer if it can be announced. -/
theorem StepEnd.answers_of_decide {policy : Policy} {complexity depth : Quantity}
    (h : (policy.decide complexity depth).Announceable) :
    (ofDecision (policy.decide complexity depth)).Answers := by
  cases hdecision : policy.decide complexity depth with
  | allowed => exact .admitted
  | rejected rejection =>
    rw [hdecision] at h
    obtain ⟨text, htext⟩ := h
    refine .rejected htext ?_
    unfold Policy.decide at hdecision
    split at hdecision
    · cases hdecision
      exact .inl rfl
    · split at hdecision
      · cases hdecision
        exact .inr rfl
      · cases hdecision

/-! ## Literals that are counted -/

namespace Scorer

variable {s : Scorer} {fragments : Option (List Fragment)}

/-- Of a plain set, the sets that a score enters are plain, if those of fragments are. -/
theorem plain_entered
    (hfragments : ∀ name set, resolve? fragments name = some (some set) → PlainSet set)
    {selections : List Selection} (h : PlainSet selections) {selection : Selection}
    (hmem : selection ∈ selections) {inner : List Selection}
    (hentered : entered fragments selection = some inner) : PlainSet inner := by
  have hbody : selection.body = some inner → PlainSet inner :=
    fun hbody argument hargument => h argument (.inside hmem hbody hargument)
  cases selection with
  | field label name arguments directives body => exact hbody hentered
  | inline on directives body => exact hbody hentered
  | spread name directives body =>
    cases body with
    | none => exact hfragments name inner (Option.join_eq_some_iff.mp hentered)
    | some body => exact hbody hentered
  | other => exact hbody hentered

/-- The arguments of fields that are counted are plain. -/
theorem Counts.isPlain
    (hfragments : ∀ name set, resolve? fragments name = some (some set) → PlainSet set)
    {name : String} {arguments : List Argument} {set : SelectionSet} {level : Int}
    (h : s.Counts fragments name arguments set level)
    (hset : ∀ selections, set = some selections → PlainSet selections) :
    ∀ argument ∈ arguments, argument.IsPlain := by
  induction h with
  | here _ hmem => exact fun argument hargument => hset _ rfl argument (.here hmem hargument)
  | inside _ hmem _ ih =>
    exact ih fun _ hentered => plain_entered hfragments (hset _ rfl) hmem hentered

end Scorer

namespace Gate

variable {gate : Gate} {limit : Nat} {document : Document} {operation : Operation}

/-- The sets that spreads stand for are those of fragments in the document. -/
theorem exists_fragment_of_resolve? {name : String} {set : SelectionSet}
    (h : Scorer.resolve? (gate.bound document) name = some set) :
    ∃ f, .fragment f ∈ document.definitions ∧ f.selections = set := by
  obtain ⟨f, hf, hset⟩ := Option.map_eq_some_iff.mp h
  obtain ⟨fragments, hfragments, hfound⟩ := Option.bind_eq_some_iff.mp hf
  unfold bound at hfragments
  split at hfragments
  · obtain rfl := Option.some.inj hfragments
    exact ⟨f, Document.mem_of_mem_fragments (List.mem_of_find?_eq_some hfound), hset⟩
  · cases hfragments

/-- The literals that a score counts are plain. -/
theorem isPlain_of_counts (hplain : document.PlainLiterals) {name : Option String}
    (htarget : document.target? name = some operation) {field : String}
    {arguments : List Argument} {level : Int}
    (hcounts : gate.scorer.Counts (gate.bound document) field arguments operation.selections
      level) : ∀ argument ∈ arguments, argument.IsPlain := by
  refine hcounts.isPlain ?_ ((hplain _ (Document.mem_of_target? htarget)).operation operation rfl)
  intro name set hset
  obtain ⟨f, hmem, hselections⟩ := exists_fragment_of_resolve? hset
  exact (hplain _ hmem).fragment f rfl set hselections

theorem pageArgument_eq {settings : Settings} (hgate : settings.gate = .ok gate) :
    gate.scorer.pageArgument = Scorer.standardPageArgument := by
  obtain ⟨_, _, hscorer⟩ := Settings.scorer_eq_ok (Settings.gate_eq_ok hgate).1
  rw [hscorer]

/-! ## Why a step breaks off -/

/-- Why a step cannot answer a request. -/
inductive BreakOff (gate : Gate) (limit : Nat) (document : Document) (name : Option String) :
    Failure → Prop
  | tooLong {operation : Operation} {field : String} {arguments : List Argument} {text : String}
      (htarget : document.target? name = some operation)
      (hcounts : gate.scorer.Counts (gate.bound document) field arguments operation.selections 0)
      (hargument : ⟨Scorer.standardPageArgument, .int text⟩ ∈ arguments)
      (hlong : WholeNumber.digitLimit < WholeNumber.digitCount text) :
      BreakOff gate limit document name (.literal (.tooLong (WholeNumber.digitCount text)))
  | unwritable {operation : Operation} {complexity : Binary64}
      (htarget : document.target? name = some operation)
      (hscore : gate.scorer.score (gate.bound document) operation.selections 0 = .ok complexity)
      (hcheap : gate.policy.maxComplexity.lt (.float complexity) = false)
      (hdeep : limit < (gate.outlineOf document operation).height ∨
        gate.meter.budget < (gate.outlineOf document operation).sizeTo limit)
      (hlong : tenTo WholeNumber.digitLimit ≤ limit + 1) :
      BreakOff gate limit document name (.literal .unwritable)
  | outOfRange {operation : Operation} (htarget : document.target? name = some operation)
      (hdepth : Binary64.ofInt? (gate.reportedDepth limit (gate.outlineOf document operation)) =
        none) :
      BreakOff gate limit document name .outOfRange

theorem BreakOff.exists_target {name : Option String} {failure : Failure}
    (h : gate.BreakOff limit document name failure) :
    ∃ operation, document.target? name = some operation := by
  cases h with
  | tooLong htarget => exact ⟨_, htarget⟩
  | unwritable htarget => exact ⟨_, htarget⟩
  | outOfRange htarget => exact ⟨_, htarget⟩

/-- Where a counted literal cannot be read, it has too many digits. -/
theorem breakOff_of_misread {settings : Settings} (hgate : settings.gate = .ok gate)
    (hplain : document.PlainLiterals) {name : Option String}
    (htarget : document.target? name = some operation) {failure : Failure}
    (h : gate.scorer.CountsSome (gate.bound document) (gate.scorer.MisreadField failure)
      operation.selections 0) :
    gate.BreakOff limit document name failure := by
  obtain ⟨field, arguments, hcounts, argument, hargument, text, e, rfl, hread, rfl⟩ := h
  rw [pageArgument_eq hgate] at hargument
  have hplain := isPlain_of_counts hplain htarget hcounts _ hargument text rfl
  rcases WholeNumber.read_of_isPlain hplain with ⟨hlong, hread'⟩ | ⟨_, n, hread'⟩
  · rw [hread] at hread'
    obtain rfl := Except.error.inj hread'
    exact .tooLong htarget hcounts hargument hlong
  · rw [hread] at hread'
    cases hread'

/-- A gate that settings describe can announce a rejection for complexity, whose numbers are
doubles, so only one for depth can lack its message. -/
theorem announceable_iff {settings : Settings} (hgate : settings.gate = .ok gate)
    {complexity : Binary64} {outline : Outline} :
    (gate.verdict settings.maxDepth complexity outline).Announceable ↔
      (gate.policy.maxComplexity.lt (.float complexity) = false →
        settings.maxDepth < outline.height ∨
          gate.meter.budget < outline.sizeTo settings.maxDepth →
        settings.maxDepth + 1 < tenTo WholeNumber.digitLimit) := by
  obtain ⟨_, _, _, hpolicy, _⟩ := Settings.gate_eq_ok hgate
  rw [announceable_verdict_iff (Built.ofSettings hgate rfl).limited, hpolicy]
  exact and_iff_right fun _ => Quantity.writable_float _

/-- A gate does not break off at an operation whose score it knows, if the verdict can be
announced and the depth is a double. -/
theorem not_breakOff {settings : Settings} (hgate : settings.gate = .ok gate)
    (hplain : document.PlainLiterals) {name : Option String}
    (htarget : document.target? name = some operation) {complexity : Binary64}
    (hscore : gate.scorer.score (gate.bound document) operation.selections 0 = .ok complexity)
    (hannounce : (gate.verdict settings.maxDepth complexity
      (gate.outlineOf document operation)).Announceable)
    (hdepth : Binary64.ofInt?
      (gate.reportedDepth settings.maxDepth (gate.outlineOf document operation)) ≠ none)
    (failure : Failure) : ¬gate.BreakOff settings.maxDepth document name failure := by
  have hprices := Settings.pricesDoubles (Settings.gate_eq_ok hgate).1
  intro hbreak
  cases hbreak with
  | @tooLong o field arguments text ho hcounts hargument hlong =>
    obtain rfl := Option.some.inj (htarget.symm.trans ho)
    obtain ⟨e, hread⟩ := (WholeNumber.read_fails_iff
      (isPlain_of_counts hplain htarget hcounts _ hargument text rfl)).mpr hlong
    obtain ⟨failure, hfailure⟩ :=
      (hprices.score_breaksFor (gate.bound document) operation.selections 0).complete _
        ⟨field, arguments, hcounts, _, hargument, text, e, by rw [pageArgument_eq hgate], hread,
          rfl⟩
    rw [hscore] at hfailure
    cases hfailure
  | @unwritable o x ho hx hcheap hdeep hlong =>
    obtain rfl := Option.some.inj (htarget.symm.trans ho)
    obtain rfl := Except.ok.inj (hscore.symm.trans hx)
    exact Nat.not_lt.2 hlong ((announceable_iff hgate).mp hannounce hcheap hdeep)
  | @outOfRange o ho hrange =>
    obtain rfl := Option.some.inj (htarget.symm.trans ho)
    exact hdepth hrange

/-- A verdict that cannot be announced is a reason to break off. -/
theorem breakOff_of_not_announceable {settings : Settings} (hgate : settings.gate = .ok gate)
    {name : Option String} (htarget : document.target? name = some operation)
    {complexity : Binary64}
    (hscore : gate.scorer.score (gate.bound document) operation.selections 0 = .ok complexity)
    (hannounce : ¬(gate.verdict settings.maxDepth complexity
      (gate.outlineOf document operation)).Announceable) :
    gate.BreakOff settings.maxDepth document name (.literal .unwritable) := by
  rw [announceable_iff hgate, Classical.not_imp, Classical.not_imp] at hannounce
  obtain ⟨hcheap, hdeep, hlong⟩ := hannounce
  exact .unwritable htarget hscore hcheap hdeep (Nat.le_of_not_lt hlong)

end Gate

/-! ## One step -/

theorem Histogram.record?_eq (bounds : List Nat) (h : Histogram) (value : Quantity) :
    h.record? bounds value = value.toBinary64?.map fun x =>
      ⟨place value (withTop bounds) h.counts, h.sum + x⟩ := by
  unfold record? Binary64.plus?
  cases value.toBinary64? <;> rfl

namespace AdmissionControl

variable (control : AdmissionControl) {metrics : Metrics} {document : Document}
  {name : Option String} {context : Context}

/-- Counting breaks off only at a depth that is no double. -/
theorem record_snd (metrics : Metrics) (operation : Operation)
    (evaluation : Evaluation) :
    (control.record metrics operation evaluation).2 =
      if evaluation.depth.toBinary64? = none then some .outOfRange else none := by
  simp only [record, Metrics.observeComplexity, Metrics.observeDepth, Histogram.record?_eq,
    Option.map_map]
  cases hdepth : evaluation.depth.toBinary64? with
  | none => rfl
  | some x => rfl

theorem ending_of_failure {failure : Failure}
    (h : control.gate.evaluate (some document) name = .error failure) :
    (control.step metrics (some document) name context).2.ending = .failed failure := by
  simp only [step, h]

theorem ending_of_none (h : document.target? name = none) :
    (control.step metrics (some document) name context).2.ending = .admitted := by
  simp only [step, Gate.evaluate, h]

section Evaluated

variable {evaluation : Evaluation} {logs : List LogRecord} {operation : Operation}

/-- The counting breaks off at a depth that is no double, and the step with it. -/
theorem ending_of_outOfRange
    (h : control.gate.evaluate (some document) name = .ok (evaluation, logs))
    (hoperation : evaluation.operation = some operation)
    (hdepth : evaluation.depth.toBinary64? = none) :
    (control.step metrics (some document) name context).2.ending = .failed .outOfRange := by
  have hrecord := control.record_snd metrics operation evaluation
  rw [if_pos hdepth] at hrecord
  simp only [step, h, hoperation]
  generalize control.record metrics operation evaluation = recorded at hrecord
  obtain ⟨metrics, failure⟩ := recorded
  simp only at hrecord
  subst hrecord
  rfl

/-- At any other depth the step ends as the evaluation decided. -/
theorem ending_of_decision
    (h : control.gate.evaluate (some document) name = .ok (evaluation, logs))
    (hoperation : evaluation.operation = some operation)
    (hdepth : evaluation.depth.toBinary64? ≠ none) :
    (control.step metrics (some document) name context).2.ending =
      .ofDecision evaluation.decision := by
  have hrecord := control.record_snd metrics operation evaluation
  rw [if_neg hdepth] at hrecord
  simp only [step, h, hoperation]
  generalize control.record metrics operation evaluation = recorded at hrecord
  obtain ⟨metrics, failure⟩ := recorded
  simp only at hrecord
  subst hrecord
  cases evaluation.decision <;> rfl

end Evaluated

/-- In front of a document whose literals are plain, the step of a gate that settings describe
answers the request, or breaks off for a reason; it answers only where there is no reason. -/
theorem step_ending {settings : Settings} {gate : Gate} (hgate : settings.gate = .ok gate)
    {document : Document} (hplain : document.PlainLiterals)
    (selector : CacheSelector) (metrics : Metrics) (name : Option String) (context : Context) :
    ((step ⟨gate, selector⟩ metrics (some document) name context).2.ending.Answers ∧
      ∀ failure, ¬gate.BreakOff settings.maxDepth document name failure) ∨
    ∃ failure, gate.BreakOff settings.maxDepth document name failure ∧
      (step ⟨gate, selector⟩ metrics (some document) name context).2.ending =
        .failed failure := by
  have hlimited := (Gate.Built.ofSettings hgate rfl).limited
  have hprices := Settings.pricesDoubles (Settings.gate_eq_ok hgate).1
  cases htarget : document.target? name with
  | none =>
    rw [ending_of_none ⟨gate, selector⟩ htarget]
    refine .inl ⟨.admitted, fun failure hbreak => ?_⟩
    obtain ⟨operation, hoperation⟩ := hbreak.exists_target
    rw [htarget] at hoperation
    cases hoperation
  | some operation =>
    cases hscore : gate.scorer.score (gate.bound document) operation.selections 0 with
    | error failure =>
      have hbreaks := hprices.score_breaksFor (gate.bound document) operation.selections 0
      exact .inr ⟨failure,
        Gate.breakOff_of_misread hgate hplain htarget (hbreaks.sound failure hscore),
        ending_of_failure ⟨gate, selector⟩ (Gate.evaluate_of_failure htarget hscore)⟩
    | ok complexity =>
      obtain ⟨hannounced, hunwritable⟩ := Gate.evaluate_of_score hlimited htarget hscore
      by_cases hannounce : (gate.verdict settings.maxDepth complexity
          (gate.outlineOf document operation)).Announceable
      · obtain ⟨logs, heval⟩ := hannounced hannounce
        by_cases hdepth : Binary64.ofInt?
            (gate.reportedDepth settings.maxDepth (gate.outlineOf document operation)) = none
        · exact .inr ⟨.outOfRange, .outOfRange htarget hdepth,
            ending_of_outOfRange ⟨gate, selector⟩ heval rfl hdepth⟩
        · rw [ending_of_decision ⟨gate, selector⟩ heval rfl hdepth]
          have hnone := Gate.not_breakOff hgate hplain htarget hscore hannounce hdepth
          rw [← Gate.policy_decide_eq_verdict hlimited] at hannounce ⊢
          exact .inl ⟨StepEnd.answers_of_decide hannounce, hnone⟩
      · exact .inr ⟨_, Gate.breakOff_of_not_announceable hgate htarget hscore hannounce,
          ending_of_failure ⟨gate, selector⟩ (hunwritable hannounce)⟩

/-! ### Queries for a page -/

/-- A query for the members, a page of them as long as the digits say. -/
def pageChars (digits : List Char) : List Char :=
  ['\x7b', ' ', 'm', 'e', 'm', 'b', 'e', 'r', 's', '(', 'l', 'i', 'm', 'i', 't', ':', ' '] ++
    (digits ++ [')', ' ', '\x7d'])

def pageQuery (digits : List Char) : String := String.ofList (pageChars digits)

def pageDocument (digits : List Char) : Document :=
  ⟨[.operation ⟨.query, none, [], [], some
    [.field none "members" [⟨"limit", .int (String.ofList digits)⟩] [] none]⟩]⟩

theorem ofText?_pageQuery {first : Char} {digits : List Char} (hzero : first ≠ '0')
    (h : ∀ c ∈ first :: digits, Numeral.isDigit c = true) :
    Token.ofText? (pageQuery (first :: digits)) =
      some [.punctuator '\x7b', .name "members", .punctuator '(', .name "limit", .punctuator ':',
        .int (String.ofList (first :: digits)), .punctuator ')', .punctuator '\x7d'] := by
  have hmark : CodePoint.mark ∉ pageChars (first :: digits) := by
    have hnone : CodePoint.mark ∉ first :: digits := fun hmem =>
      absurd (WholeNumber.mem_of_isDigit (h _ hmem)) (by decide)
    rw [pageChars, List.mem_append, List.mem_append, not_or, not_or]
    exact ⟨by decide, hnone, by decide⟩
  have hfuel : (pageChars (first :: digits)).length + 1 = digits.length + 10 + 4 + 1 + 7 := by
    simp only [pageChars, List.length_append, List.length_cons, List.length_nil]
    omega
  rw [pageQuery, Token.ofText?_ofList hmark, hfuel]
  generalize digits.length + 10 = fuel
  -- seven words and blanks stand in front of the number
  show Token.scan? (fuel + 4 + 1) (first :: digits ++ [')', ' ', '\x7d'])
    [.punctuator ':', .name "limit", .punctuator '(', .name "members", .punctuator '\x7b'] = _
  rw [Token.scan?_of_isDigit hzero h]
  rfl

/-- Digits that do not start with a zero make a document. -/
theorem parse?_pageQuery {first : Char} {digits : List Char} (hzero : first ≠ '0')
    (h : ∀ c ∈ first :: digits, Numeral.isDigit c = true) :
    Document.parse? (pageQuery (first :: digits)) = some (pageDocument (first :: digits)) := by
  simp only [Document.parse?, ofText?_pageQuery hzero h]
  rfl

/-- A page of five members is too much for the settings, and the step says so. -/
theorem step_ending_shortPage :
    ∃ gate document, strictSettings.gate = .ok gate ∧
      Document.parse? (pageQuery ['5']) = some document ∧
      (step ⟨gate, .standard⟩ .empty (some document) none .none).2.ending.Answers := by
  have hanswered : (strictSettings.gate.toOption.map fun gate =>
      match (step ⟨gate, .standard⟩ .empty (some (pageDocument ['5'])) none .none).2.ending with
      | .failed _ => false
      | _ => true) = some true := by decide +kernel
  have hparse : Document.parse? (pageQuery ['5']) = some (pageDocument ['5']) :=
    parse?_pageQuery (by decide) (List.all_eq_true.mp (by decide))
  cases hgate : strictSettings.gate with
  | error failure =>
    rw [hgate] at hanswered
    cases hanswered
  | ok gate =>
    refine ⟨gate, _, rfl, hparse, ?_⟩
    have hplain := Document.plainLiterals_of_parse? hparse
    rcases step_ending hgate hplain .standard .empty none .none with
      ⟨hanswers, _⟩ | ⟨failure, _, h⟩
    · exact hanswers
    · rw [hgate] at hanswered
      simp only [Except.toOption, Option.map_some, h] at hanswered
      cases hanswered

/-- No gate that settings describe lets a query for a page with too many digits through, and
none rejects it: the step breaks off. -/
theorem exists_failure_of_pageQuery {settings : Settings} {gate : Gate}
    (hgate : settings.gate = .ok gate) {digits : List Char} (hne : digits ≠ [])
    (hdigits : ∀ c ∈ digits, Numeral.isDigit c = true)
    (hlong : WholeNumber.digitLimit < digits.length) (selector : CacheSelector)
    (metrics : Metrics) (context : Context) :
    ∃ failure, (step ⟨gate, selector⟩ metrics (some (pageDocument digits)) none context).2.ending =
      .failed failure := by
  have hread : ∃ e, WholeNumber.read (String.ofList digits) = .error e := by
    refine (WholeNumber.read_fails_iff ⟨[], digits, .inl rfl, hne, hdigits, rfl⟩).mpr ?_
    rwa [WholeNumber.digitCount, String.toList_ofList, List.nil_append,
      List.countP_eq_length.mpr hdigits]
  obtain ⟨e, hread⟩ := hread
  obtain ⟨hscorer, _⟩ := Settings.gate_eq_ok hgate
  obtain ⟨failure, hfailure⟩ :=
    ((Settings.pricesDoubles hscorer).score_breaksFor (gate.bound (pageDocument digits))
      (some [.field none "members" [⟨"limit", .int (String.ofList digits)⟩] [] none]) 0).complete
      (.literal e)
      ⟨"members", _, .here (Int.natCast_nonneg _) List.mem_cons_self, _, List.mem_cons_self,
        String.ofList digits, e, by rw [Gate.pageArgument_eq hgate]; rfl, hread, rfl⟩
  exact ⟨failure, ending_of_failure ⟨gate, selector⟩ (Gate.evaluate_of_failure rfl hfailure)⟩

/-- A page of as many members as 4301 nines say: the step does not answer the query. -/
theorem step_unanswered_longPage :
    ∃ gate document, strictSettings.gate = .ok gate ∧
      Document.parse? (pageQuery (List.replicate 4301 '9')) = some document ∧
      ¬(step ⟨gate, .standard⟩ .empty (some document) none .none).2.ending.Answers := by
  obtain ⟨gate, hgate⟩ : ∃ gate, strictSettings.gate = .ok gate := by
    have hok : strictSettings.gate.toOption.isSome = true := by decide +kernel
    obtain ⟨gate, h⟩ := Option.isSome_iff_exists.mp hok
    exact ⟨gate, eq_ok_of_toOption h⟩
  have hdigits : ∀ c ∈ List.replicate 4301 '9', Numeral.isDigit c = true := by
    intro c hc
    rw [List.eq_of_mem_replicate hc]
    decide
  have hlength : (List.replicate 4301 '9').length = 4301 := List.length_replicate
  have hcons : List.replicate 4301 '9' = '9' :: List.replicate 4300 '9' := List.replicate_succ
  -- the digits are made variables, or the document would be computed
  generalize List.replicate 4301 '9' = digits at *
  generalize List.replicate 4300 '9' = rest at *
  subst hcons
  obtain ⟨failure, hfailure⟩ := exists_failure_of_pageQuery hgate (List.cons_ne_nil _ _) hdigits
    (by rw [hlength]; decide) .standard .empty .none
  refine ⟨gate, _, hgate, parse?_pageQuery (by decide) hdigits, ?_⟩
  rw [hfailure]
  rintro ⟨⟩

end AdmissionControl

end QueryAdmission
