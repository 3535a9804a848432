import QueryAdmission.Proofs.LimitsHold
import QueryAdmission.Settings.Sources

/-! # Settings that are accepted

Settings are checked when they are read, and the parts of a gate are checked again when
they are made. The second check finds one thing that the first does not look for: a
negative cost of a listed field. -/

namespace QueryAdmission

/-! ## The order of texts -/

namespace CodePoint

theorem inOrder_total (ps qs : List CodePoint) : (inOrder ps qs || inOrder qs ps) = true := by
  induction ps generalizing qs with
  | nil => rfl
  | cons p ps ih =>
    cases qs with
    | nil => rfl
    | cons q qs =>
      have hrest := ih qs
      simp only [inOrder, Bool.or_eq_true, Bool.and_eq_true, decide_eq_true_eq, beq_iff_eq]
        at hrest ⊢
      rcases Nat.lt_trichotomy p.toNat q.toNat with hlt | heq | hgt
      · exact .inl (.inl hlt)
      · exact hrest.imp (fun h => .inr ⟨heq, h⟩) fun h => .inr ⟨heq.symm, h⟩
      · exact .inr (.inl hgt)

theorem inOrder_trans {ps qs rs : List CodePoint} (h : inOrder ps qs = true)
    (h' : inOrder qs rs = true) : inOrder ps rs = true := by
  induction ps generalizing qs rs with
  | nil => rfl
  | cons p ps ih =>
    cases qs with
    | nil => cases h
    | cons q qs =>
      cases rs with
      | nil => cases h'
      | cons r rs =>
        simp only [inOrder, Bool.or_eq_true, Bool.and_eq_true, decide_eq_true_eq, beq_iff_eq]
          at h h' ⊢
        rcases h with hlt | ⟨heq, hrest⟩
        · exact .inl (by omega)
        · rcases h' with hlt' | ⟨heq', hrest'⟩
          · exact .inl (by omega)
          · exact .inr ⟨by omega, ih hrest hrest'⟩

end CodePoint

theorem pairwise_mergeSort_comesBefore (texts : List String) :
    (texts.mergeSort comesBefore).Pairwise (comesBefore · · = true) :=
  List.pairwise_mergeSort
    (fun a b c => @CodePoint.inOrder_trans (codePoints a) (codePoints b) (codePoints c))
    (fun a b => CodePoint.inOrder_total (codePoints a) (codePoints b)) texts

/-! ## Tables that name nothing twice -/

section Tables

variable {α : Type} {members : List (String × α)}

/-- No name has two members. -/
def NamesOnce (members : List (String × α)) : Prop := (members.map Prod.fst).Nodup

theorem NamesOnce.nil : NamesOnce ([] : List (String × α)) := List.nodup_nil

theorem NamesOnce.putMember (h : NamesOnce members) (name : String) (value : α) :
    NamesOnce (putMember members name value) := by
  unfold NamesOnce QueryAdmission.putMember at *
  split
  · have hnames : (members.map fun m => if m.1 == name then (name, value) else m).map Prod.fst =
        members.map Prod.fst := by
      rw [List.map_map]
      refine List.map_congr_left fun m _ => ?_
      simp only [Function.comp_apply]
      split
      · rename_i hname
        exact (eq_of_beq hname).symm
      · rfl
    rwa [hnames]
  · rename_i hnone
    have hfresh : name ∉ members.map Prod.fst := by
      simpa using hnone
    rw [List.map_append, List.map_singleton]
    refine List.nodup_append.mpr ⟨h, by simp, ?_⟩
    intro earlier hearlier other hother
    rw [List.mem_singleton] at hother
    exact fun heq => hfresh (by rwa [heq, hother] at hearlier)

theorem NamesOnce.putMembers {more : List (String × α)} (h : NamesOnce members) :
    NamesOnce (putMembers members more) := by
  unfold QueryAdmission.putMembers
  induction more generalizing members with
  | nil => exact h
  | cons m more ih => exact ih (h.putMember m.1 m.2)

end Tables

namespace Json

variable {fuel levels : Nat} {text : List Char} {json : Json} {rest : List Char}

/-- If the value is a table, it names nothing twice. -/
def Tidy (json : Json) : Prop := ∀ members, json = .object members → NamesOnce members

theorem tidy_of_readItems {done : List Json}
    (h : readItems fuel levels text done = .ok (json, rest)) : json.Tidy := by
  induction fuel generalizing text done with
  | zero =>
    unfold readItems at h
    cases h
  | succ fuel ih =>
    unfold readItems at h
    obtain ⟨⟨item, after⟩, -, h⟩ := bind_eq_ok h
    simp only at h
    split at h
    · cases h
      exact fun _ => nofun
    · exact ih h
    · cases h

/-- Members that are read one by one replace earlier ones of their name. -/
theorem tidy_of_readMembers {done : List (String × Json)} (hdone : NamesOnce done)
    (h : readMembers fuel levels text done = .ok (json, rest)) : json.Tidy := by
  induction fuel generalizing text done with
  | zero =>
    unfold readMembers at h
    cases h
  | succ fuel ih =>
    unfold readMembers at h
    split at h
    · obtain ⟨⟨name, after⟩, -, h⟩ := bind_eq_ok h
      simp only at h
      split at h
      · obtain ⟨⟨value, after⟩, -, h⟩ := bind_eq_ok h
        have hdone := hdone.putMember name value
        simp only at h
        split at h
        · cases h
          intro members hmembers
          cases hmembers
          exact hdone
        · exact ih hdone h
        · cases h
      · cases h
    · cases h

theorem tidy_of_readNumber (h : readNumber text = .ok (json, rest)) : json.Tidy := by
  revert h
  fun_cases readNumber text with
  | case1 | case2 | case5 => exact nofun
  | case3 | case4 =>
    intro h
    obtain ⟨rfl, -⟩ := Prod.mk.inj (Except.ok.inj h)
    exact fun _ => nofun

theorem tidy_of_readValue (h : readValue fuel levels text = .ok (json, rest)) : json.Tidy := by
  cases fuel with
  | zero =>
    unfold readValue at h
    cases h
  | succ fuel =>
    unfold readValue at h
    split at h
    · obtain ⟨⟨s, after⟩, -, h⟩ := bind_eq_ok h
      cases h
      exact fun _ => nofun
    · split at h
      · cases h
      · cases h
        exact fun _ => nofun
      · exact tidy_of_readItems h
    · split at h
      · cases h
      · cases h
        intro members hmembers
        cases hmembers
        exact .nil
      · exact tidy_of_readMembers .nil h
    · split at h
      case h_7 => exact tidy_of_readNumber h
      all_goals
        cases h
        exact fun _ => nofun

theorem tidy_of_read {text : String} (h : read levels text = .ok json) : json.Tidy := by
  obtain ⟨⟨value, rest⟩, hvalue, h⟩ := bind_eq_ok h
  simp only at h
  split at h
  · cases h
    exact tidy_of_readValue hvalue
  · cases h

end Json

/-! ## Costs that are read -/

theorem map_eq_of_mapM {ε α β : Type} {f : α → Except ε β} {xs : List α} {ys : List β}
    (h : xs.mapM f = .ok ys) : xs.map f = ys.map .ok := by
  induction xs generalizing ys with
  | nil =>
    cases h
    rfl
  | cons x xs ih =>
    rw [List.mapM_cons] at h
    obtain ⟨y, hy, h⟩ := bind_eq_ok h
    obtain ⟨rest, hrest, h⟩ := map_eq_ok h
    rw [← h, List.map_cons, List.map_cons, hy, ih hrest]

namespace Settings

/-- A table that is an argument names nothing twice. -/
def Sources.TidyArguments (sources : Sources) : Prop :=
  ∀ argument ∈ sources.arguments, argument.2.Tidy

theorem Sources.tidy_of_argument {sources : Sources} (h : sources.TidyArguments)
    {setting : Setting} {json : Json} (hjson : argument? sources.arguments setting = some json) :
    json.Tidy := by
  obtain ⟨argument, hfound, rfl⟩ := Option.map_eq_some_iff.mp hjson
  exact h argument (List.mem_of_find?_eq_some hfound)

theorem Sources.tidy_of_textSetting {source : TextSource}
    {entries : List (String × Option String)} {setting : Setting} {found : Option Json}
    (h : textSetting source entries setting = .ok found) : ∀ json ∈ found, json.Tidy := by
  intro json hjson
  unfold textSetting at h
  split at h
  · cases h
    cases hjson
  · split at h
    · split at h
      · cases h
      · cases h
      · cases h
        cases hjson
      · rename_i hread
        cases h
        cases hjson
        exact Json.tidy_of_read hread
    · cases h
      cases hjson
      exact fun _ => nofun

theorem Sources.tidy_of_textSettings {source : TextSource}
    {entries : List (String × Option String)} {all : List (Setting × Option Json)}
    (h : textSettings source entries = .ok all) (setting : Setting) :
    ∀ json ∈ (all.lookup setting).join, json.Tidy := by
  intro json hjson
  obtain ⟨before, after, hall, -⟩ := List.lookup_eq_some_iff.mp (Option.join_eq_some_iff.mp hjson)
  have hmem : (.ok (setting, some json) : Except SettingsError _) ∈ all.map Except.ok := by
    simp [hall]
  rw [← map_eq_of_mapM h] at hmem
  obtain ⟨_, -, hread⟩ := List.mem_map.mp hmem
  obtain ⟨found, hfound, heq⟩ := map_eq_ok hread
  exact tidy_of_textSetting hfound json (Prod.mk.inj heq).2

theorem Sources.tidy_layer {high low : Option Json} (hhigh : ∀ json ∈ high, json.Tidy)
    (hlow : ∀ json ∈ low, json.Tidy) : ∀ json ∈ layer high low, json.Tidy := by
  intro json hjson
  unfold layer at hjson
  split at hjson
  · rename_i members under
    cases hjson
    intro all hall
    cases hall
    exact (hlow _ rfl under rfl).putMembers
  · exact hhigh json hjson
  · exact hlow json hjson

/-- Tables of several sources are put together name by name. -/
theorem Sources.tidy_of_gather {sources : Sources} (htidy : sources.TidyArguments)
    {raw : Setting → Option Json} {unknown : List String}
    (h : sources.gather = .ok (raw, unknown)) (setting : Setting) :
    ∀ json ∈ raw setting, json.Tidy := by
  obtain ⟨environment, henvironment, h⟩ := bind_eq_ok h
  obtain ⟨file, hfile, h⟩ := bind_eq_ok h
  cases h
  exact tidy_layer (tidy_layer (fun _ => tidy_of_argument htidy)
    (tidy_of_textSettings henvironment setting)) (tidy_of_textSettings hfile setting)

theorem tidy_standardValue : (standardValue .fieldCosts).Tidy := by
  intro members hmembers
  cases hmembers
  unfold NamesOnce
  decide

/-- Costs are checked one by one and keep their names. -/
theorem namesOnce_of_checkCosts {place : List Place} {raw : Json} (htidy : raw.Tidy)
    {costs : List (String × Binary64)} (h : checkCosts place raw = .ok costs) :
    NamesOnce costs := by
  unfold checkCosts checkAll at h
  split at h
  · rename_i members
    split at h
    · have hparts := map_eq_of_mapM h
      rw [List.map_id, ← List.forall₂_eq_eq_eq, List.forall₂_map_left_iff,
        List.forall₂_map_right_iff] at hparts
      have hnames : members.map Prod.fst = costs.map Prod.fst := by
        rw [← List.forall₂_eq_eq_eq, List.forall₂_map_left_iff, List.forall₂_map_right_iff]
        refine hparts.imp fun m cost hcost => ?_
        obtain ⟨_, -, rfl⟩ := map_eq_ok hcost
        rfl
      unfold NamesOnce
      rw [← hnames]
      exact htidy members rfl
    · cases h
  · cases h

theorem settle_eq_ok {α : Type} {checked : Checked α} {a : α} (h : settle checked = .ok a) :
    checked = .ok a := by
  cases checked with
  | error problems => cases h
  | ok b => exact congrArg Except.ok (Except.ok.inj h)

/-- The costs are those that a source has, or else the default ones. -/
theorem fieldCosts_of_load {sources : Sources} {settings : Settings}
    (h : load sources = .ok settings) : ∃ raw unknown, sources.gather = .ok (raw, unknown) ∧
      checkCosts [.name Setting.fieldCosts.name]
        ((raw .fieldCosts).getD (standardValue .fieldCosts)) = .ok settings.fieldCosts := by
  unfold load at h
  obtain ⟨⟨raw, unknown⟩, hgather, h⟩ := bind_eq_ok h
  refine ⟨raw, unknown, hgather, ?_⟩
  simp only at h
  split at h
  · cases h
  split at h
  · cases h
  obtain ⟨maxDepth, -, h⟩ := bind_eq_ok h
  obtain ⟨cutoff, -, h⟩ := bind_eq_ok h
  obtain ⟨budget, -, h⟩ := bind_eq_ok h
  split at h
  · obtain ⟨host, -, h⟩ := bind_eq_ok h
    obtain ⟨port, -, h⟩ := bind_eq_ok h
    obtain ⟨debug, -, h⟩ := bind_eq_ok h
    obtain ⟨enableGraphiql, -, h⟩ := bind_eq_ok h
    obtain ⟨maxComplexity, -, h⟩ := bind_eq_ok h
    obtain ⟨defaultFieldCost, -, h⟩ := bind_eq_ok h
    obtain ⟨fieldCosts, hcosts, h⟩ := bind_eq_ok h
    obtain ⟨resolveFragments, -, h⟩ := bind_eq_ok h
    obtain ⟨publicQueries, -, h⟩ := bind_eq_ok h
    obtain ⟨noStoreOnRejection, -, h⟩ := bind_eq_ok h
    obtain ⟨logLevel, -, h⟩ := bind_eq_ok h
    obtain ⟨logEvaluations, -, h⟩ := bind_eq_ok h
    cases h
    exact settle_eq_ok hcosts
  · cases h

/-- Settings that are accepted name no field twice. -/
theorem namesOnce_of_load {sources : Sources} {settings : Settings}
    (hload : load sources = .ok settings) (htidy : sources.TidyArguments) :
    NamesOnce settings.fieldCosts := by
  obtain ⟨raw, unknown, hgather, hcosts⟩ := fieldCosts_of_load hload
  refine namesOnce_of_checkCosts ?_ hcosts
  have hraw := Sources.tidy_of_gather htidy hgather .fieldCosts
  cases hfound : raw .fieldCosts with
  | none => exact tidy_standardValue
  | some json => exact hraw json hfound

end Settings

/-! ## Costs below zero -/

namespace CostTable

variable {costs : List (String × Quantity)} {fallback : Quantity}

theorem mem_negativeNames {name : String} :
    name ∈ negativeNames costs ↔ ∃ cost, (name, cost) ∈ costs ∧ cost.isNegative = true := by
  rw [negativeNames, List.mem_mergeSort]
  constructor
  · intro hmem
    obtain ⟨⟨_, cost⟩, hentry, rfl⟩ := List.mem_map.mp hmem
    exact ⟨cost, List.mem_filter.mp hentry⟩
  · intro hcost
    obtain ⟨cost, hentry⟩ := hcost
    exact List.mem_map.mpr ⟨(name, cost), List.mem_filter.mpr hentry, rfl⟩

theorem nodup_negativeNames (h : NamesOnce costs) : (negativeNames costs).Nodup := by
  rw [negativeNames, (List.mergeSort_perm _ _).nodup_iff]
  exact h.sublist (List.filter_sublist.map _)

theorem make_of_negative (hfallback : fallback.isNegative = false)
    {entry : String × Quantity} (hentry : entry ∈ costs) (hnegative : entry.2.isNegative = true) :
    make costs fallback = .error (.negativeCosts (negativeNames costs)) := by
  have hmem : entry.1 ∈ negativeNames costs := mem_negativeNames.mpr ⟨entry.2, hentry, hnegative⟩
  unfold make
  rw [hfallback]
  cases hnames : negativeNames costs with
  | nil =>
    rw [hnames] at hmem
    cases hmem
  | cons name names => rfl

theorem make_of_not_negative (hfallback : fallback.isNegative = false)
    (h : ∀ entry ∈ costs, entry.2.isNegative = false) :
    make costs fallback = .ok ⟨costs, fallback⟩ := by
  have hnames : negativeNames costs = [] := by
    refine List.eq_nil_iff_forall_not_mem.mpr fun name hmem => ?_
    obtain ⟨cost, hentry, hnegative⟩ := mem_negativeNames.mp hmem
    rw [h _ hentry] at hnegative
    cases hnegative
  unfold make
  rw [hfallback, hnames]
  rfl

end CostTable

namespace Settings

/-- The names with a negative cost, each once and in the order of texts. NaN is not negative. -/
structure NamesNegative (settings : Settings) (names : List String) : Prop where
  inOrder : names.Pairwise (comesBefore · · = true)
  once : names.Nodup
  mem_iff : ∀ name, name ∈ names ↔
    ∃ cost, (name, cost) ∈ settings.fieldCosts ∧ (Quantity.float cost).isNegative = true

/-- A gate with the limits and prices of the settings, whose parts pass their checks. -/
structure Describes (settings : Settings) (gate : Gate) : Prop where
  cutoff : gate.scorer.cutoff = settings.complexityCutoff
  cutoff_le : gate.scorer.cutoff ≤ settings.maxDepth
  policy : gate.policy = ⟨.float settings.maxComplexity, .int settings.maxDepth⟩
  cap : gate.meter.cap = some (.int (settings.maxDepth + 1))
  budget : gate.meter.budget = settings.depthNodeBudget
  budget_pos : 0 < gate.meter.budget
  fallback_not_negative : gate.scorer.table.fallback.isNegative = false
  costs_not_negative : ∀ entry ∈ gate.scorer.table.costs, entry.2.isNegative = false
  costOf : ∀ name, gate.scorer.table.costOf name =
    .float ((settings.fieldCosts.lookup name).getD settings.defaultFieldCost)

variable {settings : Settings}

/-- The listed costs as a cost table has them. -/
def listedCosts (settings : Settings) : List (String × Quantity) :=
  settings.fieldCosts.map fun (name, cost) => (name, .float cost)

theorem namesOnce_listedCosts (h : NamesOnce settings.fieldCosts) :
    NamesOnce settings.listedCosts := by
  have hnames : settings.listedCosts.map Prod.fst = settings.fieldCosts.map Prod.fst := by
    rw [listedCosts, List.map_map]
    rfl
  unfold NamesOnce
  rwa [hnames]

theorem namesNegative_negativeNames (h : NamesOnce settings.fieldCosts) :
    settings.NamesNegative (CostTable.negativeNames settings.listedCosts) where
  inOrder := pairwise_mergeSort_comesBefore _
  once := CostTable.nodup_negativeNames (namesOnce_listedCosts h)
  mem_iff name := by
    rw [CostTable.mem_negativeNames]
    constructor
    · intro hquantity
      obtain ⟨_, hentry, hnegative⟩ := hquantity
      obtain ⟨⟨_, cost⟩, hlisted, heq⟩ := List.mem_map.mp hentry
      obtain ⟨rfl, rfl⟩ := Prod.mk.inj heq
      exact ⟨cost, hlisted, hnegative⟩
    · intro hcost
      obtain ⟨cost, hlisted, hnegative⟩ := hcost
      exact ⟨.float cost, List.mem_map_of_mem hlisted, hnegative⟩

theorem fallback_not_negative (settings : Settings) :
    (Quantity.float settings.defaultFieldCost).isNegative = false :=
  Quantity.isNegative_of_isNonNegative settings.defaultFieldCost.property

theorem gate_of_negative {entry : String × Binary64} (hentry : entry ∈ settings.fieldCosts)
    (hnegative : (Quantity.float entry.2).isNegative = true) :
    settings.gate = .error (.negativeCosts (CostTable.negativeNames settings.listedCosts)) := by
  have hlisted : (entry.1, Quantity.float entry.2) ∈ settings.listedCosts :=
    List.mem_map_of_mem hentry
  have htable : settings.costTable =
      .error (.negativeCosts (CostTable.negativeNames settings.listedCosts)) :=
    CostTable.make_of_negative settings.fallback_not_negative hlisted hnegative
  simp [gate, scorer, htable, bind, Except.bind]

theorem exists_describes
    (h : ∀ entry ∈ settings.fieldCosts, (Quantity.float entry.2).isNegative = false) :
    ∃ gate, settings.gate = .ok gate ∧ settings.Describes gate := by
  have hcosts : ∀ entry ∈ settings.listedCosts, entry.2.isNegative = false := by
    intro entry hentry
    obtain ⟨listed, hlisted, rfl⟩ := List.mem_map.mp hentry
    exact h listed hlisted
  have htable : settings.costTable = .ok ⟨settings.listedCosts, .float settings.defaultFieldCost⟩ :=
    CostTable.make_of_not_negative settings.fallback_not_negative hcosts
  have hscorer : settings.scorer = .ok ⟨⟨settings.listedCosts, .float settings.defaultFieldCost⟩,
      settings.complexityCutoff, Scorer.standardPageArgument, Scorer.standardPageCap,
      Scorer.standardPageWeight⟩ := by
    simp [scorer, htable, Scorer.make, bind, Except.bind]
  refine ⟨_, settings.gate_of_scorer hscorer, ?_⟩
  exact {
    cutoff := rfl
    cutoff_le := settings.cutoff_le
    policy := rfl
    cap := rfl
    budget := rfl
    budget_pos := settings.budget_pos
    fallback_not_negative := settings.fallback_not_negative
    costs_not_negative := hcosts
    costOf := by
      intro name
      simp only [gateWith, CostTable.costOf, listedCosts, lookup_map]
      cases settings.fieldCosts.lookup name <;> rfl }

/-- Of settings that are accepted, a gate is refused exactly if a listed cost is negative, and
the refusal names the fields with such a cost. No other check of any part can fail. -/
theorem gate_of_load {sources : Sources} (hload : load sources = .ok settings)
    (htidy : sources.TidyArguments) :
    ((∃ entry ∈ settings.fieldCosts, (Quantity.float entry.2).isNegative = true) →
      ∃ names, settings.NamesNegative names ∧
        settings.gate = .error (.negativeCosts names) ∧
        (SetupError.negativeCosts names).message =
          "Field costs must be non-negative: " ++ ", ".intercalate names ++ ".") ∧
    ((∀ entry ∈ settings.fieldCosts, (Quantity.float entry.2).isNegative = false) →
      ∃ gate, settings.gate = .ok gate ∧ settings.Describes gate) := by
  constructor
  · intro hsome
    obtain ⟨entry, hentry, hnegative⟩ := hsome
    exact ⟨_, namesNegative_negativeNames (namesOnce_of_load hload htidy),
      gate_of_negative hentry hnegative, rfl⟩
  · exact exists_describes

/-- A cost of zero as an argument, and two costs below zero in the environment. -/
def layeredSources : Sources where
  arguments := [("field_costs", .object [("users", .int 0)])]
  environment := [("QUERY_GUARD_FIELD_COSTS", "\x7b\"owner\": -1, \"me\": -0.5\x7d")]
  file := none

theorem tidyArguments_layeredSources : layeredSources.TidyArguments := by
  intro argument hargument members hmembers
  obtain rfl := List.mem_singleton.mp hargument
  cases hmembers
  unfold NamesOnce
  decide

/-- The costs below zero are refused, and without any source there are none. -/
theorem gate_of_load_layered :
    (∃ settings names, load layeredSources = .ok settings ∧ settings.NamesNegative names ∧
      "owner" ∈ names ∧ settings.gate = .error (.negativeCosts names)) ∧
    ∃ settings gate, load ⟨[], [], none⟩ = .ok settings ∧ settings.gate = .ok gate ∧
      settings.Describes gate := by
  constructor
  · have hnegative : (load layeredSources).toOption.map (·.fieldCosts.any fun entry =>
        entry.1 == "owner" && (Quantity.float entry.2).isNegative) = some true := by
      decide +kernel
    obtain ⟨settings, hload, hnegative⟩ := Option.map_eq_some_iff.mp hnegative
    obtain ⟨⟨name, cost⟩, hentry, hnegative⟩ := List.any_eq_true.mp hnegative
    obtain ⟨howner, hnegative⟩ := Bool.and_eq_true_iff.mp hnegative
    obtain rfl := eq_of_beq howner
    have hload := eq_ok_of_toOption hload
    obtain ⟨names, hnames, hgate, -⟩ :=
      (gate_of_load hload tidyArguments_layeredSources).1 ⟨_, hentry, hnegative⟩
    exact ⟨settings, names, hload, hnames, (hnames.mem_iff "owner").mpr ⟨cost, hentry, hnegative⟩,
      hgate⟩
  · have hcosts : (load ⟨[], [], none⟩).toOption.map
        (·.fieldCosts.any fun entry => (Quantity.float entry.2).isNegative) = some false := by
      decide +kernel
    obtain ⟨settings, hload, hcosts⟩ := Option.map_eq_some_iff.mp hcosts
    have hload := eq_ok_of_toOption hload
    have htidy : (⟨[], [], none⟩ : Sources).TidyArguments := fun _ => nofun
    obtain ⟨gate, hgate, hdescribes⟩ := (gate_of_load hload htidy).2 fun entry hentry => by
      rw [List.any_eq_false] at hcosts
      simpa using hcosts entry hentry
    exact ⟨settings, gate, hload, hgate, hdescribes⟩

end Settings

end QueryAdmission
