import FormulaPlot.Answer
import FormulaPlot.Command.Error
import FormulaPlot.Command.Flag
import FormulaPlot.Command.Request
import FormulaPlot.Command.Run
import FormulaPlot.Command.Token
import FormulaPlot.Fault
import FormulaPlot.Formula.Basic
import FormulaPlot.Formula.Error
import FormulaPlot.Formula.Group
import FormulaPlot.Formula.Literal
import FormulaPlot.Formula.NumberText
import FormulaPlot.Formula.Operand
import FormulaPlot.Formula.Reduction
import FormulaPlot.Formula.Sign
import FormulaPlot.Formula.Step
import FormulaPlot.Formula.Substitution
import FormulaPlot.Formula.Table
import FormulaPlot.Log.Record
import FormulaPlot.Log.Setup
import FormulaPlot.Log.Template
import FormulaPlot.Log.Template.Directive
import FormulaPlot.Log.Template.Fault
import FormulaPlot.Log.Timestamp
import FormulaPlot.Main
import FormulaPlot.Main.Image
import FormulaPlot.Noted
import FormulaPlot.Number.Binary
import FormulaPlot.Number.Decimal
import FormulaPlot.Number.Layout
import FormulaPlot.Number.Rounding
import FormulaPlot.Plot.Picture
import FormulaPlot.Plot.Sampling
import FormulaPlot.Plot.Window
import FormulaPlot.Report.Basic
import FormulaPlot.Report.Json
import FormulaPlot.Report.Printed
import FormulaPlot.Session
import FormulaPlot.Settings
import FormulaPlot.Text.Basic
import FormulaPlot.Text.Blank
import FormulaPlot.Text.DecimalDigit
import FormulaPlot.Text.Numeral
import FormulaPlot.Text.Printable
import FormulaPlot.Text.Quoted
import FormulaPlot.Value
import FormulaPlot.Proofs.Number.Bits
import FormulaPlot.Proofs.Number.Correct
import FormulaPlot.Proofs.Number.Nearest
import FormulaPlot.Proofs.Number.ReadBack
import FormulaPlot.Proofs.Expression.Basic
import FormulaPlot.Proofs.Expression.Meaning
import FormulaPlot.Proofs.Expression.Number
import FormulaPlot.Proofs.Expression.Together
import FormulaPlot.Proofs.Expression.Variable
import FormulaPlot.Proofs.Phrase.Order
import FormulaPlot.Proofs.Answer.Check
import FormulaPlot.Proofs.Answer.Plot
import FormulaPlot.Proofs.Answer.Sample
import FormulaPlot.Proofs.Engine.Enclosed
import FormulaPlot.Proofs.Engine.Limit
import FormulaPlot.Proofs.Engine.Names
import FormulaPlot.Proofs.Engine.Trace
import FormulaPlot.Proofs.Formula.Group
import FormulaPlot.Proofs.Formula.Plus
import FormulaPlot.Proofs.Operator.Drain
import FormulaPlot.Proofs.Operator.Literals
import FormulaPlot.Proofs.Plot.Cells
import FormulaPlot.Proofs.Plot.Fitted
import FormulaPlot.Proofs.Position.Engine
import FormulaPlot.Proofs.Position.Operand
import FormulaPlot.Proofs.Sample.Evaluate
import FormulaPlot.Proofs.Answer.Printed
