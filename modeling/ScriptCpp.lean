import ScriptCpp.Main
import ScriptCpp.Shell.Run
import ScriptCpp.Proofs.Lexing.ByteWalk
import ScriptCpp.Proofs.Linking.Expansion
import ScriptCpp.Proofs.OperatorGrouping
import ScriptCpp.Proofs.Parsing.RoundTrip
import ScriptCpp.Proofs.Parsing.Conservation
import ScriptCpp.Proofs.Parsing.Concatenation
import ScriptCpp.Proofs.Emission.Composition
import ScriptCpp.Proofs.Emission.LexicalClosure
import ScriptCpp.Proofs.Emission.HelperUse
import ScriptCpp.Proofs.Emission.History
import ScriptCpp.Proofs.Emission.Fallthrough
import ScriptCpp.Proofs.Session.Footprint
import ScriptCpp.Proofs.Session.Sources
import ScriptCpp.Proofs.Emission.Comparison
import ScriptCpp.Proofs.Emission.Refusal
import ScriptCpp.Proofs.Emission.FeatureUse
import ScriptCpp.Proofs.Lexing.Layout
import ScriptCpp.Proofs.Linking.Retry
import ScriptCpp.Proofs.Linking.Remains
import ScriptCpp.Proofs.Parsing.Grammar
import ScriptCpp.Proofs.Parsing.Counter
import ScriptCpp.Proofs.Parsing.Lookahead
import ScriptCpp.Proofs.Parsing.Cursor
import ScriptCpp.Proofs.Parsing.Parallel
import ScriptCpp.Proofs.Parsing.Likeness
import ScriptCpp.Proofs.Parsing.Depth
import ScriptCpp.Proofs.Parsing.Blindness
import ScriptCpp.Proofs.Emission.ElseChain
import ScriptCpp.Proofs.Files.Route
import ScriptCpp.Proofs.Parsing.Precedence
import ScriptCpp.Proofs.Parsing.Chains
import ScriptCpp.Proofs.Linking.Notices
import ScriptCpp.Proofs.Lexing.Rejection
import ScriptCpp.Proofs.ConditionalGrouping
import ScriptCpp.Proofs.Binary64.Printing
import ScriptCpp.Proofs.Parsing.Objections
import ScriptCpp.Proofs.NumberRoundTrip
import ScriptCpp.Proofs.Cpp.Atom
import ScriptCpp.Proofs.Cpp.Term
import ScriptCpp.Proofs.Cpp.Operand
import ScriptCpp.Proofs.Cpp.Chain
import ScriptCpp.Proofs.Emission.Exposure
import ScriptCpp.Proofs.Emission.FormExposure
import ScriptCpp.Proofs.Emission.ExprExposure
import ScriptCpp.Proofs.CallGrouping
import ScriptCpp.Proofs.Cpp.Identifier
import ScriptCpp.Proofs.Emission.Mention
import ScriptCpp.Proofs.Emission.NamedCallee
import ScriptCpp.Proofs.Session.Cleanup
import ScriptCpp.Proofs.Emission.NameText
import ScriptCpp.Proofs.Emission.FormNames
import ScriptCpp.Proofs.Emission.EmittedNames
import ScriptCpp.Proofs.NameConsistency
