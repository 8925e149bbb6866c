import RubyReader.Main
import RubyReader.Proofs.Scope
import RubyReader.Proofs.Places
import RubyReader.Proofs.Expressions
import RubyReader.Proofs.Sessions
import RubyReader.Proofs.Printing
import RubyReader.Proofs.Signs
import RubyReader.Proofs.Handlers
import RubyReader.Proofs.Nesting
import RubyReader.Proofs.Spelling
import RubyReader.Proofs.Trees
import RubyReader.Proofs.Serialization
import RubyReader.Proofs.Display
import RubyReader.Proofs.Tiling
import RubyReader.Proofs.Runs
import RubyReader.Proofs.Faults
import RubyReader.Proofs.Failures
import RubyReader.Proofs.Closing
import RubyReader.Proofs.Lines
import RubyReader.Proofs.Relevance
import RubyReader.Proofs.Symbols
import RubyReader.Proofs.Domains
import RubyReader.Proofs.Stepping
import RubyReader.Proofs.Parentheses
import RubyReader.Proofs.Openings
import RubyReader.Proofs.Strings
import RubyReader.Proofs.Spines
import RubyReader.Proofs.Parameters
import RubyReader.Proofs.ParameterLists
import RubyReader.Proofs.Headings
import RubyReader.Proofs.Offsets
import RubyReader.Proofs.Denotation
import RubyReader.Proofs.Styles
import RubyReader.Proofs.Prompt
import RubyReader.Proofs.Arguments
