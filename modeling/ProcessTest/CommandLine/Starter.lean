import ProcessTest.Artifact.Lines

/-!
# A first definition

The definition that a new directory starts with.
-/

set_option autoImplicit false

namespace ProcessTest.Starter

/-- The lines of the definition. -/
def lines : List String :=
  ["version: \"1.0\"",
   "id: first-sale",
   "title: First sale",
   "industry: retail",
   "context:",
   "  organization_id: org-demo",
   "  currency: USD",
   "  clock: \"2024-01-01T09:00:00Z\"",
   "personas:",
   "  cashier:",
   "    role: cashier",
   "    permissions: [\"entities:create\", \"transactions:create\"]",
   "steps:",
   "  - id: register_customer",
   "    description: Cashier registers the customer",
   "    persona: cashier",
   "    actions:",
   "      - type: create_entity",
   "        entity_type: customer",
   "        entity_name: Sample Customer",
   "        smart_code: HERA.RETAIL.CRM.ENT.CUST.v1",
   "        store_as: customer",
   "  - id: record_sale",
   "    description: Cashier records a cash sale",
   "    persona: cashier",
   "    preconditions:",
   "      - \"\x7b\x7bcustomer.id\x7d\x7d\"",
   "    actions:",
   "      - type: create_transaction",
   "        transaction_type: sale",
   "        smart_code: HERA.RETAIL.POS.TXN.SALE.v1",
   "        transaction_date: \"\x7b\x7bclock+60\x7d\x7d\"",
   "        source_entity_id: \"\x7b\x7bcustomer.id\x7d\x7d\"",
   "        total_amount: 110",
   "        line_items:",
   "          - line_type: debit",
   "            line_amount: 110",
   "          - line_type: credit",
   "            line_amount: 100",
   "          - line_type: credit",
   "            line_amount: 10",
   "        store_as: sale",
   "assertions:",
   "  - type: database",
   "    description: one customer registered",
   "    table: core_entities",
   "    conditions:",
   "      entity_type: customer",
   "    expected_count: 1",
   "  - type: business_rule",
   "    description: ten percent sales tax",
   "    rule: tax_calculation",
   "    amount: 100",
   "    rate: 0.10",
   "    expected_tax: 10",
   "metadata:",
   "  tags: [sample]",
   "  priority: medium",
   "policy:",
   "  failure: stop_on_first",
   "  always_cleanup: true"]

/-- The text of the definition. -/
def text : String := Artifact.unlines lines

end ProcessTest.Starter
