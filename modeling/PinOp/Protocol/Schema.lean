import Mathlib
import PinOp.Protocol.Messages

/-!
# What the schemas check

Parsing a message checks its fields against the protocol's limits. `Valid` collects, for
each message, the checks on the fields modelled here; a message that fails only on others
is one that never arrives.
-/

namespace PinOp.Protocol

/-- The length of an ECMAScript string: its UTF-16 code units. -/
def jsLength (s : String) : ℕ := (s.toList.map fun c => if c.toNat < 0x10000 then 1 else 2).sum

namespace Limits

def opaqueIdLength : ℕ := 128
def labelLength : ℕ := 128
def languageIdLength : ℕ := 64
def generation : ℕ := 0x7fffffff
def count : ℕ := 0x7fffffff
def sourceMatches : ℕ := 32
def ruleEvidence : ℕ := 256
def ruleRefLength : ℕ := 128
def rulesSources : ℕ := 256
def unresolvedRules : ℕ := 256
def authorityIdLength : ℕ := 128

end Limits

/-- `z.string().min(1).max(limit)` -/
def boundedText (limit : ℕ) (s : String) : Bool := 0 < jsLength s ∧ jsLength s ≤ limit

def isOpaqueId (s : String) : Bool := boundedText Limits.opaqueIdLength s

def SourceDocument.valid (document : SourceDocument) : Bool :=
  boundedText Limits.labelLength document.label ∧
    boundedText Limits.languageIdLength document.languageId

def InspectRuleEvidenceBatch.valid (batch : InspectRuleEvidenceBatch) : Bool :=
  batch.rules.length ≤ Limits.ruleEvidence ∧
    (∀ evidence ∈ batch.rules, boundedText Limits.ruleRefLength evidence.ruleRef) ∧
    (batch.rules.map InspectRuleEvidence.ruleRef).Nodup

def ResolutionMessage.valid (message : ResolutionMessage) : Bool :=
  isOpaqueId message.sessionId ∧ isOpaqueId message.source.id ∧
    isOpaqueId message.inspectMessageId ∧ message.resolutionGeneration ≤ Limits.generation ∧
    message.document.all SourceDocument.valid

def SourceMatchesMessage.valid (message : SourceMatchesMessage) : Bool :=
  isOpaqueId message.sessionId ∧ isOpaqueId message.source.id ∧
    isOpaqueId message.inspectMessageId ∧ message.resolutionGeneration ≤ Limits.generation ∧
    message.document.valid ∧ message.matches.length ≤ Limits.sourceMatches ∧
    (∀ m ∈ message.matches, isOpaqueId m.matchId) ∧ message.omittedMatchCount ≤ Limits.count

def RulesSourcesMessage.valid (message : RulesSourcesMessage) : Bool :=
  isOpaqueId message.sessionId ∧ isOpaqueId message.source.id ∧
    isOpaqueId message.inspectMessageId ∧ message.rulesGeneration ≤ Limits.generation ∧
    message.sources.length ≤ Limits.rulesSources ∧
    (∀ s ∈ message.sources, boundedText Limits.ruleRefLength s.ruleRef ∧
      boundedText Limits.authorityIdLength s.openAuthorityId) ∧
    (message.sources.map RulesSource.ruleRef).Nodup ∧
    (message.sources.map RulesSource.openAuthorityId).Nodup ∧
    message.unresolvedRuleCount ≤ Limits.unresolvedRules

def SourceNavigationStateMessage.valid (message : SourceNavigationStateMessage) : Bool :=
  isOpaqueId message.sessionId ∧ isOpaqueId message.source.id ∧
    isOpaqueId message.inspectMessageId ∧ message.resolutionGeneration ≤ Limits.generation ∧
    message.selectedMatchCount ≤ Limits.count ∧
    message.activeMatchIndex.all (fun index => index ≤ Limits.count ∧
      index < message.selectedMatchCount) ∧
    message.activeMatchId.all isOpaqueId

end PinOp.Protocol
