import AtlasKernel.Lib.AddressCase
import AtlasKernel.Routing.Cidr
import AtlasKernel.Vless.NodeConfig
import AtlasKernel.Vless.Xudp

/-! Which outbound a target is given: the first rule that is on and matches decides, and no rule
tells two spellings of one host apart. Source: `routing.rs` and `session.rs` of the kernel. -/
namespace AtlasKernel.Routing
open AtlasKernel.Lib AtlasKernel.Vless

/-! ## Sessions -/

structure KernelNode extends Vless.KernelNode where
  id : Option String
  protocol : String

inductive KernelRoutingMode where
  | global | rule | direct
deriving DecidableEq, Repr

inductive KernelRuleMatcher where
  | domain (value : String)
  | domainSuffix (value : String)
  | domainKeyword (value : String)
  | cidr (value : String)
deriving DecidableEq, Repr

inductive KernelRouteAction where
  | proxy (nodeId : Option String)
  | direct
  | reject
deriving DecidableEq, Repr

structure KernelRouteRule where
  matcher : KernelRuleMatcher
  action : KernelRouteAction
  enabled : Bool
deriving DecidableEq, Repr

structure KernelRoutingConfig where
  mode : KernelRoutingMode
  rules : List KernelRouteRule

structure KernelSession where
  listenHost : String
  selectedNode : KernelNode
  nodes : List KernelNode
  routing : KernelRoutingConfig

/-! ## The router -/

inductive RouteDecision where
  | proxy (node : KernelNode)
  | direct
  | reject

structure Router where
  selectedNode : KernelNode
  nodes : List KernelNode
  config : KernelRoutingConfig

def Router.new (session : KernelSession) : Router :=
  ⟨session.selectedNode, session.nodes, session.routing⟩

/-- `str::eq_ignore_ascii_case` -/
def eqIgnoreAsciiCase (text other : String) : Bool :=
  toAsciiLowercase text.toList = toAsciiLowercase other.toList

/-- `matches_cidr`, where no shift overflows. -/
def matchesCidr (host cidr : String) : Bool :=
  match IpAddr.parse (utf8 host.toList) with
  | none => false
  | some ip => Lib.matchesCidr ip cidr.toList

def matchesRule (matcher : KernelRuleMatcher) (target : TargetAddress) : Bool :=
  let host := toAsciiLowercase target.host.toList
  match matcher with
  | .domain value => eqIgnoreAsciiCase target.host value
  | .domainSuffix value => (toAsciiLowercase value.toList).isSuffixOf host
  | .domainKeyword value => toAsciiLowercase value.toList <:+: host
  | .cidr value => matchesCidr target.host value

def Router.nodeFor (router : Router) : Option String → Except String KernelNode
  | none => .ok router.selectedNode
  | some nodeId =>
    match (router.nodes ++ [router.selectedNode]).find? (·.id = some nodeId) with
    | some node => .ok node
    | none => .error ("route references unknown node: " ++ nodeId)

def Router.decide (router : Router) (target : TargetAddress) : Except String RouteDecision :=
  match router.config.mode with
  | .direct => .ok .direct
  | .global => .ok (.proxy router.selectedNode)
  | .rule =>
    match (router.config.rules.filter (·.enabled)).find? (matchesRule ·.matcher target) with
    | some rule =>
      match rule.action with
      | .direct => .ok .direct
      | .reject => .ok .reject
      | .proxy nodeId => (router.nodeFor nodeId).map .proxy
    | none => .ok (.proxy router.selectedNode)

/-- The checked one returns, and it returns the same. -/
theorem kernelMatchesCidr?_eq (host cidr : String) :
    kernelMatchesCidr? host.toList cidr.toList = some (matchesCidr host cidr) := by
  rw [matchesCidr]
  cases hparse : IpAddr.parse (utf8 host.toList) with
  | none => exact kernelMatchesCidr?_name hparse _
  | some ip => exact (kernelMatchesCidr?_literal hparse _).trans (tunMatchesCidr?_eq ip _)

/-! ## What a rule sees -/

/-- The names a resolver does not tell apart. -/
def SameHost (target target' : TargetAddress) : Prop :=
  toAsciiLowercase target.host.toList = toAsciiLowercase target'.host.toList

theorem matchesRule_sameHost {target target' : TargetAddress} (h : SameHost target target')
    (matcher : KernelRuleMatcher) : matchesRule matcher target = matchesRule matcher target' := by
  have hlower : toAsciiLowercase target.host.toList = toAsciiLowercase target'.host.toList := h
  cases matcher with
  | domain value => simp only [matchesRule, eqIgnoreAsciiCase, hlower]
  | domainSuffix value => simp only [matchesRule, hlower]
  | domainKeyword value => simp only [matchesRule, hlower]
  | cidr value => simp only [matchesRule, matchesCidr, IpAddr.parse_case h]

/-- `rule` is on, it matches, and no rule in front of it does both. -/
structure FirstMatch (rules : List KernelRouteRule) (target : TargetAddress)
    (rule : KernelRouteRule) : Prop where
  enabled : rule.enabled = true
  hit : matchesRule rule.matcher target = true
  first : ∃ before after, rules = before ++ rule :: after ∧
    ∀ other ∈ before, other.enabled = true → matchesRule other.matcher target = false

/-- No rule that is on matches. -/
def NoMatch (rules : List KernelRouteRule) (target : TargetAddress) : Prop :=
  ∀ rule ∈ rules, rule.enabled = true → matchesRule rule.matcher target = false

theorem find_firstMatch {rules : List KernelRouteRule} {target : TargetAddress}
    {rule : KernelRouteRule} :
    (rules.filter (·.enabled)).find? (matchesRule ·.matcher target) = some rule ↔
      FirstMatch rules target rule := by
  rw [List.find?_filter, List.find?_eq_some_iff_append]
  simp only [decide_eq_true_eq, Bool.not_eq_true', decide_eq_false_iff_not, not_and,
    Bool.not_eq_true]
  constructor
  · rintro ⟨⟨henabled,hhit⟩,before,after,hrules,hbefore⟩
    exact ⟨henabled,hhit,before,after,hrules,hbefore⟩
  · rintro ⟨henabled,hhit,before,after,hrules,hbefore⟩
    exact ⟨⟨henabled,hhit⟩,before,after,hrules,hbefore⟩

theorem find_noMatch {rules : List KernelRouteRule} {target : TargetAddress} :
    (rules.filter (·.enabled)).find? (matchesRule ·.matcher target) = none ↔
      NoMatch rules target := by
  rw [List.find?_eq_none, NoMatch]
  simp only [List.mem_filter, Bool.not_eq_true, and_imp]

/-! ## What is decided -/

/-- The first of the nodes with this id, where the selected node is the last. -/
def Named (session : KernelSession) (nodeId : String) (node : KernelNode) : Prop :=
  node.id = some nodeId ∧ ∃ before after,
    session.nodes ++ [session.selectedNode] = before ++ node :: after ∧
      ∀ other ∈ before, other.id ≠ some nodeId

/-- What the session says about the target. -/
inductive Decides (session : KernelSession) (target : TargetAddress) : RouteDecision → Prop where
  | directMode : session.routing.mode = .direct → Decides session target .direct
  | globalMode : session.routing.mode = .global →
      Decides session target (.proxy session.selectedNode)
  | direct {rule : KernelRouteRule} : session.routing.mode = .rule →
      FirstMatch session.routing.rules target rule → rule.action = .direct →
        Decides session target .direct
  | reject {rule : KernelRouteRule} : session.routing.mode = .rule →
      FirstMatch session.routing.rules target rule → rule.action = .reject →
        Decides session target .reject
  | selected {rule : KernelRouteRule} : session.routing.mode = .rule →
      FirstMatch session.routing.rules target rule → rule.action = .proxy none →
        Decides session target (.proxy session.selectedNode)
  | named {rule : KernelRouteRule} {nodeId : String} {node : KernelNode} :
      session.routing.mode = .rule → FirstMatch session.routing.rules target rule →
        rule.action = .proxy (some nodeId) → Named session nodeId node →
          Decides session target (.proxy node)
  | noMatch : session.routing.mode = .rule → NoMatch session.routing.rules target →
      Decides session target (.proxy session.selectedNode)

/-- The rule that decides names a node that is not there. -/
def NamesNoNode (session : KernelSession) (target : TargetAddress) : Prop :=
  session.routing.mode = .rule ∧ ∃ rule nodeId, FirstMatch session.routing.rules target rule ∧
    rule.action = .proxy (some nodeId) ∧
      ∀ node ∈ session.nodes ++ [session.selectedNode], node.id ≠ some nodeId

theorem nodeFor_iff {session : KernelSession} {nodeId : String} {node : KernelNode} :
    (Router.new session).nodeFor (some nodeId) = .ok node ↔ Named session nodeId node := by
  have hfind : (session.nodes ++ [session.selectedNode]).find? (·.id = some nodeId) = some node ↔
      Named session nodeId node := by
    rw [List.find?_eq_some_iff_append, Named]
    simp only [decide_eq_true_eq, Bool.not_eq_true', decide_eq_false_iff_not, ne_eq]
  rw [← hfind, Router.nodeFor, Router.new]
  cases (session.nodes ++ [session.selectedNode]).find? (·.id = some nodeId) with
  | none => simp
  | some found => simp

theorem nodeFor_error_iff {session : KernelSession} {nodeId : String} :
    (∃ err, (Router.new session).nodeFor (some nodeId) = .error err) ↔
      ∀ node ∈ session.nodes ++ [session.selectedNode], node.id ≠ some nodeId := by
  have hfind : (session.nodes ++ [session.selectedNode]).find? (·.id = some nodeId) = none ↔
      ∀ node ∈ session.nodes ++ [session.selectedNode], node.id ≠ some nodeId := by
    rw [List.find?_eq_none]
    simp only [decide_eq_true_eq, ne_eq]
  rw [← hfind, Router.nodeFor, Router.new]
  cases (session.nodes ++ [session.selectedNode]).find? (·.id = some nodeId) with
  | none => simp
  | some found => simp

/-- One rule decides, and it is the only one. -/
theorem FirstMatch.unique {rules : List KernelRouteRule} {target : TargetAddress}
    {rule rule' : KernelRouteRule} (h : FirstMatch rules target rule)
    (h' : FirstMatch rules target rule') : rule = rule' := by
  have hfind := find_firstMatch.mpr h
  rw [find_firstMatch.mpr h'] at hfind
  exact (Option.some.inj hfind).symm

/-- The router in the mode in which it looks at its rules. -/
theorem decide_rule {session : KernelSession} (h : session.routing.mode = .rule)
    (target : TargetAddress) :
    (∃ rule, FirstMatch session.routing.rules target rule ∧ (Router.new session).decide target =
      match rule.action with
      | .direct => .ok .direct
      | .reject => .ok .reject
      | .proxy nodeId => ((Router.new session).nodeFor nodeId).map .proxy) ∨
    NoMatch session.routing.rules target ∧
      (Router.new session).decide target = .ok (.proxy session.selectedNode) := by
  have hmode : (Router.new session).config.mode = .rule := h
  cases hfind : (session.routing.rules.filter (·.enabled)).find? (matchesRule ·.matcher target) with
  | some rule =>
    refine .inl ⟨rule,find_firstMatch.mp hfind,?_⟩
    simp only [Router.decide, hmode]
    simp only [Router.new, hfind]
  | none =>
    refine .inr ⟨find_noMatch.mp hfind,?_⟩
    simp only [Router.decide, hmode]
    simp only [Router.new, hfind]

/-- What the first match says is what is decided. -/
theorem decide_firstMatch {session : KernelSession} {target : TargetAddress} {rule : KernelRouteRule}
    (hmode : session.routing.mode = .rule) (h : FirstMatch session.routing.rules target rule) :
    (Router.new session).decide target =
      match rule.action with
      | .direct => .ok .direct
      | .reject => .ok .reject
      | .proxy nodeId => ((Router.new session).nodeFor nodeId).map .proxy := by
  obtain ⟨rule',hfirst,hdecide⟩ | ⟨hnone,_⟩ := decide_rule hmode target
  · rw [h.unique hfirst, hdecide]
  · obtain ⟨henabled,hhit,before,after,hrules,_⟩ := h
    have hmiss := hnone rule (by rw [hrules]; simp) henabled
    rw [hhit] at hmiss
    cases hmiss

theorem decides_of_decide {session : KernelSession} {target : TargetAddress}
    {decision : RouteDecision} (h : (Router.new session).decide target = .ok decision) :
    Decides session target decision := by
  cases hmode : session.routing.mode with
  | direct =>
    simp only [Router.decide, Router.new, hmode] at h
    cases h
    exact .directMode hmode
  | global =>
    simp only [Router.decide, Router.new, hmode] at h
    cases h
    exact .globalMode hmode
  | rule =>
    obtain ⟨rule,hfirst,hdecide⟩ | ⟨hnone,hdecide⟩ := decide_rule hmode target
    · rw [hdecide] at h
      cases haction : rule.action with
      | direct =>
        simp only [haction] at h
        cases h
        exact .direct hmode hfirst haction
      | reject =>
        simp only [haction] at h
        cases h
        exact .reject hmode hfirst haction
      | proxy nodeId =>
        simp only [haction] at h
        cases nodeId with
        | none =>
          cases h
          exact .selected hmode hfirst haction
        | some nodeId =>
          cases hnode : (Router.new session).nodeFor (some nodeId) with
          | error err =>
            rw [hnode] at h
            cases h
          | ok node =>
            rw [hnode] at h
            cases h
            exact .named hmode hfirst haction (nodeFor_iff.mp hnode)
    · rw [hdecide] at h
      cases h
      exact .noMatch hmode hnone

theorem Decides.decide {session : KernelSession} {target : TargetAddress}
    {decision : RouteDecision} (h : Decides session target decision) :
    (Router.new session).decide target = .ok decision := by
  cases h with
  | directMode hmode => simp only [Router.decide, Router.new, hmode]
  | globalMode hmode => simp only [Router.decide, Router.new, hmode]
  | direct hmode hfirst haction => simp only [decide_firstMatch hmode hfirst, haction]
  | reject hmode hfirst haction => simp only [decide_firstMatch hmode hfirst, haction]
  | selected hmode hfirst haction =>
    simp only [decide_firstMatch hmode hfirst, haction]
    rfl
  | named hmode hfirst haction hnamed =>
    simp only [decide_firstMatch hmode hfirst, haction, nodeFor_iff.mpr hnamed]
    rfl
  | noMatch hmode hnone =>
    obtain ⟨rule,⟨henabled,hhit,before,after,hrules,_⟩,_⟩ | ⟨_,hdecide⟩ := decide_rule hmode target
    · have hmiss := hnone rule (by rw [hrules]; simp) henabled
      rw [hhit] at hmiss
      cases hmiss
    · exact hdecide

theorem Decides.mem_nodes {session : KernelSession} {target : TargetAddress}
    {node : KernelNode} (h : Decides session target (.proxy node)) :
    node ∈ session.nodes ++ [session.selectedNode] := by
  cases h with
  | globalMode => simp
  | selected => simp
  | named _ _ _ hnamed =>
    obtain ⟨_,before,after,hnodes,_⟩ := hnamed
    rw [hnodes]
    simp
  | noMatch => simp

theorem decide_error_iff {session : KernelSession} {target : TargetAddress} :
    (∃ err, (Router.new session).decide target = .error err) ↔ NamesNoNode session target := by
  constructor
  · rintro ⟨err,h⟩
    cases hmode : session.routing.mode with
    | direct => simp [Router.decide, Router.new, hmode] at h
    | global => simp [Router.decide, Router.new, hmode] at h
    | rule =>
      obtain ⟨rule,hfirst,hdecide⟩ | ⟨_,hdecide⟩ := decide_rule hmode target
      · rw [hdecide] at h
        cases haction : rule.action with
        | direct => simp [haction] at h
        | reject => simp [haction] at h
        | proxy nodeId =>
          simp only [haction] at h
          cases nodeId with
          | none => cases h
          | some nodeId =>
            refine ⟨hmode,rule,nodeId,hfirst,haction,nodeFor_error_iff.mp ?_⟩
            cases hnode : (Router.new session).nodeFor (some nodeId) with
            | error err => exact ⟨err,rfl⟩
            | ok node =>
              rw [hnode] at h
              cases h
      · rw [hdecide] at h
        cases h
  · rintro ⟨hmode,rule,nodeId,hfirst,haction,hnone⟩
    obtain ⟨err,herr⟩ := nodeFor_error_iff.mpr hnone
    refine ⟨err,?_⟩
    simp only [decide_firstMatch hmode hfirst, haction, herr]
    rfl

theorem decide_sameHost (session : KernelSession) {target target' : TargetAddress}
    (h : SameHost target target') :
    (Router.new session).decide target = (Router.new session).decide target' := by
  have hmatches : (fun rule : KernelRouteRule => matchesRule rule.matcher target) =
      fun rule => matchesRule rule.matcher target' :=
    funext fun rule => matchesRule_sameHost h rule.matcher
  rw [Router.decide, Router.decide, hmatches]

/-- The router decides what the session says: by its mode, or by the first rule that is on and
matches. It fails exactly if that rule names a node that is not there. The port of the target and
the case of its letters, those of an IPv6 address as well, make no difference. -/
theorem routing_decision (session : KernelSession) (target : TargetAddress) :
    (∀ decision, (Router.new session).decide target = .ok decision ↔
      Decides session target decision) ∧
    ((∃ err, (Router.new session).decide target = .error err) ↔ NamesNoNode session target) ∧
    ∀ target', SameHost target target' →
      (Router.new session).decide target' = (Router.new session).decide target :=
  ⟨fun _ => ⟨decides_of_decide,Decides.decide⟩,decide_error_iff,
    fun _ h => (decide_sameHost session h).symm⟩

end AtlasKernel.Routing
