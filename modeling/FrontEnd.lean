import FrontEnd.Main
import FrontEnd.Proofs.Lexer.Positions
import FrontEnd.Proofs.Parser.Probing
import FrontEnd.Proofs.Parser.Accounts
import FrontEnd.Proofs.Parser.Names
import FrontEnd.Proofs.Parser.RowStatement
import FrontEnd.Proofs.Parser.Faults
import FrontEnd.Proofs.Parser.Contexts
import FrontEnd.Proofs.Lexer.Settled
import FrontEnd.Proofs.Lexer.Spacing
import FrontEnd.Proofs.Parser.Nesting
import FrontEnd.Proofs.Parser.Reprinting
import FrontEnd.Proofs.Parser.Unlimited
import FrontEnd.Proofs.Parser.Assignments
import FrontEnd.Proofs.Parser.Concatenation
import FrontEnd.Proofs.Parser.Subjects
import FrontEnd.Proofs.Lexer.Lines
import FrontEnd.Proofs.Parser.Regular
import FrontEnd.Proofs.Tree.Anchors
import FrontEnd.Proofs.Tree.Spans
import FrontEnd.Proofs.Parser.Begins
import FrontEnd.Proofs.Parser.Spans
import FrontEnd.Proofs.Parser.Spans.Expressions
import FrontEnd.Proofs.Parser.Spans.Statements
import FrontEnd.Proofs.Parser.Anchors
import FrontEnd.Proofs.Parser.Layout
import FrontEnd.Proofs.Parser.Foresight
import FrontEnd.Proofs.Lexer.Fronts
import FrontEnd.Proofs.Lexer.Truncation
import FrontEnd.Proofs.Lexer.Joining
import FrontEnd.Proofs.Lexer.Warnings
import FrontEnd.Proofs.CommandLine.Independence
import FrontEnd.Proofs.Json.Reading
import FrontEnd.Proofs.Tree.Json
import FrontEnd.Proofs.Sexpr.Faithful
import FrontEnd.Proofs.Parser.Operations
import FrontEnd.Proofs.Lexer.Starts
import FrontEnd.Proofs.Lexer.Numbers
import FrontEnd.Proofs.Lexer.Literals
import FrontEnd.Proofs.Parser.Respelling
import FrontEnd.Proofs.Parser.Respelling.Expressions
import FrontEnd.Proofs.Parser.Respelling.Statements
import FrontEnd.Proofs.Parser.Respelling.Runs
import FrontEnd.Proofs.Parser.Respelling.Unfolding
import FrontEnd.Proofs.Parser.Spellings
import FrontEnd.Proofs.Source.Buffer
import FrontEnd.Proofs.Lexer.Naming
import FrontEnd.Proofs.Parser.Refusals
import FrontEnd.Proofs.Parser.Refusals.Productions
import FrontEnd.Proofs.Parser.Refusals.Sources
import FrontEnd.Proofs.Parser.Parameters
