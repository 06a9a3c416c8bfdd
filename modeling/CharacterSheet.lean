import CharacterSheet.Aggregation
import CharacterSheet.Aggregation.Error
import CharacterSheet.Aggregation.InTurn
import CharacterSheet.Binary64.Basic
import CharacterSheet.Binary64.Elementary
import CharacterSheet.Binary64.Integral
import CharacterSheet.Binary64.Order
import CharacterSheet.Bonus.Catalog
import CharacterSheet.Bonus.Error
import CharacterSheet.Bonus.Graph
import CharacterSheet.Bonus.Modifier
import CharacterSheet.Bonus.Operation
import CharacterSheet.Bonus.Table
import CharacterSheet.Bonus.Total
import CharacterSheet.Config
import CharacterSheet.Decimal.Basic
import CharacterSheet.Decimal.Scientific
import CharacterSheet.Decimal.Shortest
import CharacterSheet.Enhancer
import CharacterSheet.Enhancer.Groups
import CharacterSheet.Entity
import CharacterSheet.Entity.Error
import CharacterSheet.Entity.InPlace
import CharacterSheet.Entity.Operation
import CharacterSheet.Formula
import CharacterSheet.Formula.Error
import CharacterSheet.Formula.Expr
import CharacterSheet.Formula.Expr.Printer
import CharacterSheet.Formula.Expr.Reader
import CharacterSheet.Formula.Expr.Value
import CharacterSheet.Formula.Grammar
import CharacterSheet.Formula.Lexeme
import CharacterSheet.Formula.LexicalGrammar
import CharacterSheet.Formula.Limits
import CharacterSheet.Formula.MathFunction
import CharacterSheet.Formula.Operator
import CharacterSheet.Formula.Token
import CharacterSheet.Formula.Token.Scan
import CharacterSheet.History
import CharacterSheet.Json
import CharacterSheet.Json.Reader
import CharacterSheet.Json.Writer
import CharacterSheet.Keyword
import CharacterSheet.NameMap
import CharacterSheet.Names
import CharacterSheet.Proofs.Aggregation
import CharacterSheet.Proofs.Binary64.Bits
import CharacterSheet.Proofs.Binary64.Bounds
import CharacterSheet.Proofs.Binary64.Division
import CharacterSheet.Proofs.Binary64.Levels
import CharacterSheet.Proofs.Binary64.Nearest
import CharacterSheet.Proofs.Binary64.Product
import CharacterSheet.Proofs.Binary64.Quotient
import CharacterSheet.Proofs.Binary64.Range
import CharacterSheet.Proofs.Binary64.Remainder
import CharacterSheet.Proofs.Binary64.Rounding
import CharacterSheet.Proofs.Binary64.Sum
import CharacterSheet.Proofs.Binary64.Unpacked
import CharacterSheet.Proofs.Binary64.Whole
import CharacterSheet.Proofs.Bitwise
import CharacterSheet.Proofs.Bonus.Atomicity
import CharacterSheet.Proofs.Bonus.CatalogGraph
import CharacterSheet.Proofs.Bonus.CycleDetection
import CharacterSheet.Proofs.Bonus.DepthLimit
import CharacterSheet.Proofs.Bonus.Edges
import CharacterSheet.Proofs.Bonus.PlainTotal
import CharacterSheet.Proofs.Bonus.StoredNumbers
import CharacterSheet.Proofs.Bonus.Table
import CharacterSheet.Proofs.Bonus.TableQueries
import CharacterSheet.Proofs.ByteOrder
import CharacterSheet.Proofs.Calls
import CharacterSheet.Proofs.CustomFormulas
import CharacterSheet.Proofs.Decimal.ReadBack
import CharacterSheet.Proofs.DecimalPlaces
import CharacterSheet.Proofs.DiminishingStack
import CharacterSheet.Proofs.EarliestError
import CharacterSheet.Proofs.Entity.Accounts
import CharacterSheet.Proofs.Entity.Atomicity
import CharacterSheet.Proofs.Entity.Influence
import CharacterSheet.Proofs.Entity.Queries
import CharacterSheet.Proofs.Entity.Regrouping
import CharacterSheet.Proofs.Entity.Steps
import CharacterSheet.Proofs.Entity.StoredNumbers
import CharacterSheet.Proofs.Entity.Validation
import CharacterSheet.Proofs.Except
import CharacterSheet.Proofs.FailingNode
import CharacterSheet.Proofs.FloorDivision
import CharacterSheet.Proofs.FormulaSize
import CharacterSheet.Proofs.FormulaText
import CharacterSheet.Proofs.Grouping
import CharacterSheet.Proofs.Interleaving
import CharacterSheet.Proofs.LargerLimits
import CharacterSheet.Proofs.LexicalErrors
import CharacterSheet.Proofs.Lexing
import CharacterSheet.Proofs.Multipliers
import CharacterSheet.Proofs.PowerForms
import CharacterSheet.Proofs.Printing
import CharacterSheet.Proofs.Reading
import CharacterSheet.Proofs.Record.Enhancer
import CharacterSheet.Proofs.Record.Formula
import CharacterSheet.Proofs.Record.ReadBack
import CharacterSheet.Proofs.Record.Shape
import CharacterSheet.Proofs.Rereading
import CharacterSheet.Proofs.Sandbox
import CharacterSheet.Proofs.Scanning
import CharacterSheet.Proofs.Shifts
import CharacterSheet.Proofs.StoredNumbers
import CharacterSheet.Proofs.Unambiguity
import CharacterSheet.Property
import CharacterSheet.Record.Bonus
import CharacterSheet.Record.Config
import CharacterSheet.Record.Enhancer
import CharacterSheet.Record.Formula
import CharacterSheet.Record.Shape
import CharacterSheet.Record.Statistic
import CharacterSheet.Severity
import CharacterSheet.Statistic
import CharacterSheet.Text.GraphemeExtend
import CharacterSheet.Text.Quoted
import CharacterSheet.Text.Unprintable
